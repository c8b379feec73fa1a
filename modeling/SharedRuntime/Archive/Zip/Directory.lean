import SharedRuntime.Archive.Zip.Fault
import SharedRuntime.Digest.Crc32
import SharedRuntime.Text.CodePage437
import SharedRuntime.Text.Utf8

/-!
# The directory of a zip archive

A zip archive ends with a record that says where the list of its entries stands. The last such
record that leads to a well-formed list is the one that counts: bytes may follow the archive, and
bytes may stand before it, by which all places are shifted.

Entries are told apart by their names: a name that occurs again replaces the entry, at the place
where the name stood first.
-/

set_option autoImplicit false

namespace SharedRuntime.Zip

/-- An entry of the directory. `start` is where its local header stands in the file;
`hasKeyStrength` says that the directory names the strength of the key of an encrypted entry. -/
structure Entry where
  name : String
  method : Nat
  encrypted : Bool
  hasKeyStrength : Bool
  crc : UInt32
  compressedSize : Nat
  size : Nat
  start : Nat
  deriving Repr, Inhabited

/-- The number of `len` bytes at a place. -/
def field (bs : Bytes) (start len : Nat) : Nat := Bytes.natLE ((bs.drop start).take len)

/-- The bytes that the record at the end of the archive starts with. -/
def endMagic : Bytes := [0x50, 0x4B, 5, 6]

/-- The bytes that the large record at the end starts with. -/
def largeEndMagic : Bytes := [0x50, 0x4B, 6, 6]

/-- The bytes that the locator of the large record starts with. -/
def locatorMagic : Bytes := [0x50, 0x4B, 6, 7]

/-- The bytes that an entry of the directory starts with. -/
def entryMagic : Bytes := [0x50, 0x4B, 1, 2]

/-- The bytes that a local header starts with. -/
def localMagic : Bytes := [0x50, 0x4B, 3, 4]

/-- The places where the pattern stands, the last first, each with the bytes from there on. Those
before `bs`, which starts at `place`, are `found`. -/
def findAux (pattern : Bytes) (place : Nat) : Bytes → List (Nat × Bytes) → List (Nat × Bytes)
  | [], found => found
  | b :: bs, found =>
    findAux pattern (place + 1) bs
      (if Bytes.startsWith pattern (b :: bs) then (place, b :: bs) :: found else found)

/-- The places where the pattern stands, the last first, each with the bytes from there on. -/
def findAll (pattern bs : Bytes) : List (Nat × Bytes) := findAux pattern 0 bs []

/-- The places where the pattern stands between two positions, in order. -/
def places (pattern : Bytes) (low high : Nat) (bs : Bytes) : List Nat :=
  ((findAux pattern low ((bs.drop low).take (high - low)) []).map Prod.fst).reverse

/-- The first place where the pattern stands in bytes of which the first is at `place`. -/
def firstPlace? (pattern : Bytes) (place : Nat) : Bytes → Option Nat
  | [] => none
  | b :: bs =>
    if Bytes.startsWith pattern (b :: bs) then some place else firstPlace? pattern (place + 1) bs

/-- The record at the end of an archive. -/
structure EndRecord where
  disk : Nat
  directoryDisk : Nat
  filesHere : Nat
  files : Nat
  directorySize : Nat
  directoryStart : Nat
  commentLength : Nat

/-- The size of the record at the end, without its comment. -/
def endRecordSize : Nat := 22

/-- Reads the record at the end; `bs` starts with it. -/
def EndRecord.read (bs : Bytes) : Except Fault EndRecord :=
  if Bytes.isShorterThan endRecordSize bs then .error (.io (.endOfData "end of file"))
  else
    let commentLength := field bs 20 2
    if Bytes.isShorterThan (endRecordSize + commentLength) bs then .error .invalid
    else .ok ⟨field bs 4 2, field bs 6 2, field bs 8 2, field bs 10 2, field bs 12 4,
      field bs 16 4, commentLength⟩

/-- May a large record hold what does not fit into this one? -/
def EndRecord.mayBeLarge (r : EndRecord) : Bool :=
  r.files == 0xFFFF || r.directoryStart == 0xFFFFFFFF

/-- Where the list of entries is, and how many there are. `shift` is the number of bytes before
the archive. -/
structure Placement where
  shift : Nat
  start : Nat
  count : Nat
  disk : Nat
  directoryDisk : Nat

/-- The locator of the large record, and where it stands. -/
structure Locator where
  place : Nat
  directoryDisk : Nat
  recordStart : Nat
  disks : Nat

/-- The locator just before the record at the end. -/
def locator? (bs : Bytes) (endPlace : Nat) : Option Locator :=
  if endPlace < 20 then none
  else
    let place := endPlace - 20
    let block := bs.drop place
    if Bytes.startsWith locatorMagic block then
      some ⟨place, field block 4 4, field block 8 8, field block 16 4⟩
    else none

/-- The placement that a large record at `place` gives, if the record is sound. -/
def largePlacement? (bs : Bytes) (l : Locator) (place : Nat) : Option Placement :=
  let block := bs.drop place
  let recordSize := field block 4 8
  let versionMadeBy := field block 12 2
  let versionNeeded := field block 14 2
  let disk := field block 16 4
  let directoryDisk := field block 20 4
  let filesHere := field block 24 8
  let files := field block 32 8
  let directoryStart := field block 48 8
  if recordSize < 44 || l.place < place + recordSize + 12 ||
      Bytes.isShorterThan 56 block then none
  else if directoryDisk != l.directoryDisk || recordSize + 12 != l.place - place then none
  else if place < files * 46 + directoryStart then none
  else if files < filesHere || versionMadeBy < versionNeeded then none
  else some ⟨place - l.recordStart, directoryStart + (place - l.recordStart), filesHere, disk,
    directoryDisk⟩

/-- The placement that a record at `endPlace` gives, or none where it is not sound. -/
def EndRecord.placement? (bs : Bytes) (endPlace : Nat) (r : EndRecord) : Option Placement :=
  match if r.mayBeLarge then locator? bs endPlace else none with
  | none =>
    if r.files = 0 then
      some ⟨endPlace - r.directoryStart, r.directoryStart + (endPlace - r.directoryStart),
        r.filesHere, r.disk, r.directoryDisk⟩
    else if endPlace ≤ r.directoryStart then none
    else
      let between := (bs.drop r.directoryStart).take (endPlace - r.directoryStart)
      (firstPlace? entryMagic r.directoryStart between).map fun first =>
        ⟨first - r.directoryStart, first, r.filesHere, r.disk, r.directoryDisk⟩
  | some l =>
    if l.place ≤ l.recordStart || 1 < l.disks then none
    else (places largeEndMagic l.recordStart l.place bs).findSome? (largePlacement? bs l)

/-- What is known of an entry while its extra fields are read. -/
structure Draft where
  entry : Entry
  rawName : Bytes
  comment : Bytes

/-- What came of reading one extra field: more are read behind it, the bytes have ended and the
entry stands as it is, or the directory is not sound. -/
inductive ExtraResult
  | next (draft : Draft) (rest : Bytes)
  | stop (draft : Draft)
  | refused

/-- Goes on behind the next `n` bytes. -/
def skipExtra (n : Nat) (rest : Bytes) (d : Draft) : ExtraResult :=
  if rest.length < n then .stop d else .next d (rest.drop n)

/-- The value that stands for one too large for four bytes. -/
def largeMark : Nat := 0xFFFFFFFF

/-- Sets the size, the compressed size and the place of an entry, as far as there are values. -/
def Entry.withLarge (e : Entry) : List (Option Nat) → Entry
  | [size, compressedSize, start] =>
    { e with
      size := size.getD e.size
      compressedSize := compressedSize.getD e.compressedSize
      start := start.getD e.start }
  | _ => e

/-- Reads eight bytes for each value that is wanted, and says whether there were enough of them. -/
def largeValues : List Bool → Bytes → List (Option Nat) × Bool
  | [], _ => ([], true)
  | want :: wants, bs =>
    if want then
      if bs.length < 8 then (none :: wants.map fun _ => none, false)
      else
        let (vs, enough) := largeValues wants (bs.drop 8)
        (some (field bs 0 8) :: vs, enough)
    else
      let (vs, enough) := largeValues wants bs
      (none :: vs, enough)

/-- Reads a field of `n` bytes with the sizes and the place that are too large for four bytes. -/
def readLarge (n : Nat) (rest : Bytes) (d : Draft) : ExtraResult :=
  let all := 24 ≤ n
  let wants := [all || d.entry.size == largeMark, all || d.entry.compressedSize == largeMark,
    all || d.entry.start == largeMark]
  let (values, enough) := largeValues wants rest
  let d := { d with entry := d.entry.withLarge values }
  let used := 8 * wants.countP id
  if !enough then .stop d
  else if n < used then .refused
  else skipExtra (n - used) (rest.drop used) d

/-- Reads a field of `n` bytes with the method and the strength of the key of an encrypted
entry. -/
def readKeyStrength (n : Nat) (rest : Bytes) (d : Draft) : ExtraResult :=
  if n != 7 then .refused
  else if rest.length < 7 then .stop d
  else if field rest 2 2 = 0x4541 && (field rest 0 2 = 1 || field rest 0 2 = 2) &&
      1 ≤ field rest 4 1 && field rest 4 1 ≤ 3 then
    .next { d with entry := { d.entry with method := field rest 5 2, hasKeyStrength := true } }
      (rest.drop 7)
  else .refused

/-- Is bit `i` of the number set? -/
def hasBit (n i : Nat) : Bool := n / Nat.pow 2 i % 2 == 1

/-- Reads a field of `n` bytes with up to three times. The length has to be that of all times that
the flags name, or that of one. -/
def readTimes (n : Nat) (rest : Bytes) (d : Draft) : ExtraResult :=
  match rest with
  | [] => .stop d
  | f :: more =>
    let flags := f.toNat
    if n != 5 && n != 1 + 4 * (List.range 8).countP (hasBit flags) then .refused
    else if n = 5 then skipExtra 4 more d
    else skipExtra (4 * (List.range 3).countP (hasBit flags)) more d

/-- Reads a field of `n` bytes with the times of a file system. -/
def readFileTimes (n : Nat) (rest : Bytes) (d : Draft) : ExtraResult :=
  if n != 32 then .refused
  else if rest.length < 6 then .stop d
  else if field rest 4 2 != 1 then .refused
  else if rest.length < 8 then .stop d
  else if field rest 6 2 != 24 then .refused
  else skipExtra 24 (rest.drop 8) d

/-- Reads a field of `n` bytes with a text that stands for `plain`, whose checksum it holds. -/
def readText (n : Nat) (rest plain : Bytes) (d : Draft) (use : Bytes → String → Draft) :
    ExtraResult :=
  if rest.length < 5 then .stop d
  else if n < 5 then .refused
  else if rest.length < n then .stop d
  else if field rest 1 4 != (Digest.Crc32.checksum plain).toNat then .refused
  else
    let raw := (rest.take n).drop 5
    match Utf8.decode? raw with
    | none => .refused
    | some text => .next (use raw text) (rest.drop n)

/-- Reads an extra field of the given kind and length. -/
def readExtra (kind n : Nat) (rest : Bytes) (d : Draft) : ExtraResult :=
  if kind = 0x0001 then readLarge n rest d
  else if kind = 0x9901 then readKeyStrength n rest d
  else if kind = 0x5455 then readTimes n rest d
  else if kind = 0x000A then readFileTimes n rest d
  else if kind = 0x6375 then readText n rest d.comment d fun raw _ => { d with comment := raw }
  else if kind = 0x7075 then
    readText n rest d.rawName d fun raw name =>
      { d with entry := { d.entry with name := name }, rawName := raw }
  else skipExtra n rest d

/-- Reads extra fields up to the end of their bytes. -/
def readExtras : Nat → Bytes → Draft → Option Draft
  | 0, _, d => some d
  | fuel + 1, extra, d =>
    if extra.length < 4 then some d
    else match readExtra (field extra 0 2) (field extra 2 2) (extra.drop 4) d with
      | .next d rest => readExtras fuel rest d
      | .stop d => some d
      | .refused => none

/-- The method of encrypted entries, which names the true one in an extra field. -/
def encryptedMethod : Nat := 99

/-- The text of a name or a comment. -/
def entryText (isUtf8 : Bool) (raw : Bytes) : String :=
  if isUtf8 then Utf8.decodeLossy raw else CodePage437.decode raw

/-- Reads an entry of the directory; `bs` starts with it. Gives the bytes behind it, too. -/
def readEntry? (p : Placement) (bs : Bytes) : Option (Entry × Bytes) := do
  if !Bytes.startsWith entryMagic bs || Bytes.isShorterThan 46 bs then failure
  let flags := field bs 8 2
  let nameLength := field bs 28 2
  let extraLength := field bs 30 2
  let commentLength := field bs 32 2
  if Bytes.isShorterThan (46 + nameLength + extraLength + commentLength) bs then failure
  let rawName := (bs.drop 46).take nameLength
  let extra := (bs.drop (46 + nameLength)).take extraLength
  let comment := (bs.drop (46 + nameLength + extraLength)).take commentLength
  let text := entryText (hasBit flags 11)
  let entry : Entry := ⟨text rawName, field bs 10 2, hasBit flags 0, false,
    UInt32.ofNat (field bs 16 4), field bs 20 4, field bs 24 4, field bs 42 4⟩
  let d ← readExtras extra.length extra ⟨entry, rawName, Bytes.ofString (text comment)⟩
  if d.entry.method = encryptedMethod && !d.entry.hasKeyStrength then failure
  let start := d.entry.start + p.shift
  if p.start ≤ start then failure
  return ({ d.entry with start := start },
    bs.drop (46 + nameLength + extraLength + commentLength))

/-- Reads a number of entries. -/
def readEntries? (p : Placement) : Nat → Bytes → Option (List Entry)
  | 0, _ => some []
  | n + 1, bs => do
    let (e, rest) ← readEntry? p bs
    let es ← readEntries? p n rest
    return e :: es

/-- Puts an entry into a list of entries with distinct names: in place of the one of that name, or
at the end. -/
def putEntry (e : Entry) : List Entry → List Entry
  | [] => [e]
  | f :: fs => if f.name = e.name then e :: fs else f :: putEntry e fs

/-- The entries that a placement leads to. -/
def entriesAt? (bs : Bytes) (p : Placement) : Option (List Entry) :=
  if p.disk != p.directoryDisk then none
  else (readEntries? p p.count (bs.drop p.start)).map fun es =>
    es.foldl (fun done e => putEntry e done) []

/-- Tries records at the end of an archive, the last first; each is given by its place and the bytes
from there on. `pending` is the fault to report if none leads to a list: the file ends within the
record, or the record is not sound. -/
def searchEntries (bs : Bytes) (pending : Option Fault) :
    List (Nat × Bytes) → Except Fault (List Entry)
  | [] => .error (pending.getD .invalid)
  | (endPlace, block) :: rest =>
    match EndRecord.read block with
    | .error f => searchEntries bs (pending.or (some f)) rest
    | .ok r =>
      match r.placement? bs endPlace with
      | none => searchEntries bs (some .invalid) rest
      | some p =>
        match entriesAt? bs p with
        | none => searchEntries bs none rest
        | some es => .ok es

/-- The entries of the archive that a file holds, from the last record that leads to a list. -/
def readDirectory (bs : Bytes) : Except Fault (List Entry) :=
  searchEntries bs none (findAll endMagic bs)

end SharedRuntime.Zip
