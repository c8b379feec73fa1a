import SharedRuntime.Text.Ascii

/-!
# Redirection to a store

A host that does not load the runtime itself sends the user to a store. Which package is shown
depends on the word size of the host, on the processor of the device, and on whether the store is
the default one, which serves all processors under one package.
-/

set_option autoImplicit false

namespace SharedRuntime

/-- The facts that the choice of a package needs. -/
structure StoreContext where
  /-- The package of the store that opens the address. -/
  primaryStore : String
  deviceAbi : String
  appAbi : String
  deriving DecidableEq, Repr

namespace StoreContext

/-- The package of the default store. -/
def defaultStore : String := "com.android.vending"

/-- Is the store the default one? -/
def isDefaultStore (c : StoreContext) : Bool := c.primaryStore == defaultStore

/-- Has the device an ARM processor? -/
def isArmDevice (c : StoreContext) : Bool :=
  eqIgnoringCase c.deviceAbi "armeabi-v7a" || eqIgnoringCase c.deviceAbi "arm64-v8a"

/-- Is the host a program of 32 bits? -/
def isSmallApp (c : StoreContext) : Bool :=
  eqIgnoringCase c.appAbi "x86" || eqIgnoringCase c.appAbi "armeabi-v7a"

/-- The package to show. -/
def package (c : StoreContext) : String :=
  match c.isSmallApp, c.isDefaultStore || c.isArmDevice with
  | true, true => "org.runtime.core"
  | true, false => "org.runtime.core.ia"
  | false, true => "org.runtime.core64"
  | false, false => "org.runtime.core64.ia"

/-- The address of the page of a package. -/
def detailsUri (package : String) : String := "market://details?id=" ++ package

/-- The address to open. -/
def uri (c : StoreContext) : String := detailsUri c.package

end StoreContext

end SharedRuntime
