import SharedRuntime.Host.Store
import SharedRuntime.Installed.Status
import SharedRuntime.Update.State

/-!
# Presentation

What happens is shown in dialogs while the host is in the foreground, and told to a listener while
it is in the background. `Effect` lists all that an update asks of its surroundings.
-/

set_option autoImplicit false

namespace SharedRuntime

/-- What a user may choose in a dialog. -/
inductive UserAction
  /-- Start the download, or try again. -/
  | accept
  | decline
  | cancelDownload
  deriving DecidableEq, Repr

/-- A choice with the number of the attempt whose dialog it was made in. -/
structure ActionReport where
  attempt : Nat
  action : UserAction
  deriving DecidableEq, Repr

/-- Why the platform did not do what it was asked. -/
inductive PlatformFault
  | noHandler (uri : String)
  | install (why : String)
  deriving DecidableEq, Repr

/-- The text of a fault. -/
def PlatformFault.message : PlatformFault → String
  | noHandler uri => "No application can open " ++ uri
  | install why => "Installer hand-off failed: " ++ why

/-- What an update asks of its surroundings. -/
inductive Effect
  /-- Tell the listener. -/
  | tell (event : UpdateEvent)
  /-- Show that the runtime cannot be used, and offer the download. -/
  | showEligibility (status : RuntimeStatus) (attempt : Nat)
  /-- Show that a download runs. -/
  | showProgress (attempt : Nat)
  | setProgress (percent : UInt8)
  /-- Show that the download failed, and offer to try again. -/
  | showError (attempt : Nat)
  /-- Close the dialog. -/
  | dismiss
  /-- Open a page of the store. -/
  | openStore (uri : String)
  /-- Hand a package to the installer of the platform. -/
  | installPackage (artifact : Path)
  /-- Begin a transfer. -/
  | startDownload (session : Nat) (request : UpdateRequest)
  /-- Ask a transfer to stop. -/
  | cancelDownload (session : Nat)
  /-- Verify an artifact; the verdict comes back as a message. -/
  | verify (artifact : Path)
  /-- Unpack an artifact; the result comes back as a message. -/
  | install (artifact destination : Path)
  /-- Remove an artifact, if it is there. -/
  | removeFile (artifact : Path)
  /-- End the program: there is neither an address nor a store. -/
  | abort (fault : PlatformFault)
  deriving DecidableEq, Repr

/-- Where an update is shown. -/
inductive Presentation
  | background
  /-- Dialogs, and a platform with the given store. -/
  | foreground (store : StoreContext)
  deriving DecidableEq, Repr

namespace Presentation

/-- Are there dialogs? -/
def isForeground : Presentation → Bool
  | foreground _ => true
  | background => false

/-- Asks the user about a runtime that has to be updated. -/
def presentEligibility (p : Presentation) (status : RuntimeStatus) (attempt : Nat) : List Effect :=
  match p with
  | foreground _ => [.showEligibility status attempt]
  | background => []

/-- Shows an event in a dialog. -/
def showEvent (attempt : Nat) : UpdateEvent → List Effect
  | .started => [.showProgress attempt]
  | .progress percent => [.setProgress percent]
  | .completed => [.dismiss]
  | .failed _ => [.dismiss, .showError attempt]
  | .cancelled => [.dismiss, .tell .cancelled]

/-- Shows or tells an event. -/
def present (p : Presentation) (attempt : Nat) (event : UpdateEvent) : List Effect :=
  match p with
  | background => [.tell event]
  | foreground _ => showEvent attempt event

/-- Closes any dialog. -/
def dismissDialog : Presentation → List Effect
  | foreground _ => [.dismiss]
  | background => []

/-- Hands an artifact to the platform, which `answer` speaks for; nothing in the background. -/
def handOff (p : Presentation) (answer : Path → Except PlatformFault Unit) (artifact : Path) :
    List Effect × Except PlatformFault Unit :=
  match p with
  | foreground _ => ([.installPackage artifact], answer artifact)
  | background => ([], .ok ())

/-- Opens the page of the package to install, with the address that was opened; none in the
background. -/
def openStore (p : Presentation) (answer : String → Except PlatformFault Unit) :
    List Effect × Option (Except PlatformFault String) :=
  match p with
  | foreground store => ([.openStore store.uri], some ((answer store.uri).map fun _ => store.uri))
  | background => ([], none)

end Presentation

end SharedRuntime
