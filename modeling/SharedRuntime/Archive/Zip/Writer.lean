import SharedRuntime.Archive.Zip.Directory

/-!
# Writing zip archives

`write` puts entries one after the other, their contents as they are, then the directory and the
record that says where it is. A name that is not ASCII is marked as UTF-8.
-/

set_option autoImplicit false

namespace SharedRuntime.Zip

/-- The version of the format that a reader has to know. -/
def neededVersion : Nat := 20

/-- The flags of an entry: whether its name is UTF-8. -/
def nameFlags (name : String) : Nat :=
  if name.toList.all fun c => c.toNat < 128 then 0 else Nat.pow 2 11

/-- The date of an entry: the first day that the format knows. -/
def firstDay : Nat := 33

/-- The fields that the local header and the directory share. -/
def sharedFields (name : String) (data : Bytes) : Bytes :=
  Bytes.ofNatLE 2 neededVersion ++ Bytes.ofNatLE 2 (nameFlags name) ++ Bytes.ofNatLE 2 0 ++
  Bytes.ofNatLE 2 0 ++ Bytes.ofNatLE 2 firstDay ++
  Bytes.ofNatLE 4 (Digest.Crc32.checksum data).toNat ++ Bytes.ofNatLE 4 data.length ++
  Bytes.ofNatLE 4 data.length ++ Bytes.ofNatLE 2 (Bytes.ofString name).length ++
  Bytes.ofNatLE 2 0

/-- The local header of an entry with its contents. -/
def localRecord (name : String) (data : Bytes) : Bytes :=
  localMagic ++ sharedFields name data ++ Bytes.ofString name ++ data

/-- The entry of the directory for a local header at `start`. -/
def directoryRecord (name : String) (data : Bytes) (start : Nat) : Bytes :=
  entryMagic ++ Bytes.ofNatLE 2 neededVersion ++ sharedFields name data ++ Bytes.ofNatLE 2 0 ++
  Bytes.ofNatLE 2 0 ++ Bytes.ofNatLE 2 0 ++ Bytes.ofNatLE 4 0 ++ Bytes.ofNatLE 4 start ++
  Bytes.ofString name

/-- The entries of the directory, the first local header standing at `start`. -/
def directoryRecords : Nat → List (String × Bytes) → Bytes
  | _, [] => []
  | start, (name, data) :: rest =>
    directoryRecord name data start ++
      directoryRecords (start + (localRecord name data).length) rest

/-- An archive of the given entries. -/
def write (files : List (String × Bytes)) : Bytes :=
  let contents := files.flatMap fun f => localRecord f.1 f.2
  let directory := directoryRecords 0 files
  contents ++ directory ++ endMagic ++ Bytes.ofNatLE 2 0 ++ Bytes.ofNatLE 2 0 ++
    Bytes.ofNatLE 2 files.length ++ Bytes.ofNatLE 2 files.length ++
    Bytes.ofNatLE 4 directory.length ++ Bytes.ofNatLE 4 contents.length ++ Bytes.ofNatLE 2 0

/-- The entries up to the first whose name was there before, and whether there is none. -/
def distinctStart : List String → List (String × Bytes) → List (String × Bytes) × Bool
  | _, [] => ([], true)
  | seen, f :: fs =>
    if seen.contains f.1 then ([], false)
    else
      let (kept, all) := distinctStart (f.1 :: seen) fs
      (f :: kept, all)

end SharedRuntime.Zip
