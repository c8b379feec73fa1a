import Mathlib.Algebra.Ring.Nat
import SharedRuntime.Archive.Zip.Writer
import SharedRuntime.Proofs.Archive.Contents
import SharedRuntime.Proofs.Text.Utf8

/-!
# Written archives read back

What `Zip.write` makes of files that fit into the format is an archive of these files
(`isArchive_write`). The record at the end is found although its first bytes may stand elsewhere:
the search starts at the end, and behind the record there is no room for another one.
-/

set_option autoImplicit false

namespace SharedRuntime.Zip

theorem startsWith_append (xs rest : Bytes) : Bytes.startsWith xs (xs ++ rest) = true :=
  List.isPrefixOf_iff_prefix.2 (List.prefix_append xs rest)

theorem isShorterThan_of_le {n : Nat} {bs : Bytes} (h : n ≤ bs.length) :
    Bytes.isShorterThan n bs = false := by
  rw [Bool.eq_false_iff, ne_eq, Bytes.isShorterThan_iff]
  exact Nat.not_lt.2 h

/-! ## Records of numbers -/

/-- The bytes of numbers, each in its width. -/
def numbers : List Nat → List Nat → Bytes
  | w :: ws, v :: vs => Bytes.ofNatLE w v ++ numbers ws vs
  | _, _ => []

theorem length_numbers {ws vs : List Nat} (h : ws.length = vs.length) :
    (numbers ws vs).length = ws.sum := by
  induction ws generalizing vs with
  | nil => rfl
  | cons w ws ih =>
    cases vs with
    | nil => cases h
    | cons v vs =>
      rw [numbers, List.length_append, Bytes.length_ofNatLE, ih (Nat.succ.inj h), List.sum_cons]

/-- Number `k` of a record is read at its place, if it fits into its width. -/
theorem field_numbers (k : Nat) {magic rest : Bytes} {ws vs : List Nat} {start w v : Nat}
    (hw : ws[k]? = some w) (hv : vs[k]? = some v)
    (hstart : start = magic.length + (ws.take k).sum) (hlt : v < 256 ^ w) :
    field (magic ++ (numbers ws vs ++ rest)) start w = v := by
  induction k generalizing magic ws vs with
  | zero =>
    cases ws with
    | nil => cases hw
    | cons w' ws =>
      cases vs with
      | nil => cases hv
      | cons v' vs =>
        cases hw
        cases hv
        rw [numbers, List.append_assoc, field, List.drop_left' hstart.symm,
          List.take_left' (Bytes.length_ofNatLE w v), Bytes.natLE_ofNatLE w v hlt]
  | succ k ih =>
    cases ws with
    | nil => cases hw
    | cons w' ws =>
      cases vs with
      | nil => cases hv
      | cons v' vs =>
        rw [numbers, List.append_assoc, ← List.append_assoc]
        refine ih hw hv ?_
        rw [hstart, List.length_append, Bytes.length_ofNatLE, List.take_succ_cons, List.sum_cons,
          Nat.add_assoc]

/-- The widths of the numbers of the record at the end. -/
def endWidths : List Nat := [2, 2, 2, 2, 4, 4, 2]

/-- The record at the end. -/
def endRecord (count directorySize directoryStart : Nat) : Bytes :=
  endMagic ++ (numbers endWidths [0, 0, count, count, directorySize, directoryStart, 0] ++ [])

/-- The widths of the numbers that the local header and the directory share. -/
def sharedWidths : List Nat := [2, 2, 2, 2, 2, 4, 4, 4, 2, 2]

/-- The numbers that the local header and the directory share. -/
def sharedNumbers (name : String) (data : Bytes) : List Nat :=
  [neededVersion, nameFlags name, 0, 0, firstDay, (Digest.Crc32.checksum data).toNat, data.length,
    data.length, (Bytes.ofString name).length, 0]

/-- The widths of the numbers of an entry of the directory. -/
def entryWidths : List Nat := 2 :: (sharedWidths ++ [2, 2, 2, 4, 4])

/-- The numbers of an entry of the directory. -/
def entryNumbers (name : String) (data : Bytes) (start : Nat) : List Nat :=
  neededVersion :: (sharedNumbers name data ++ [0, 0, 0, 0, start])

theorem localRecord_eq (name : String) (data : Bytes) : localRecord name data =
    localMagic ++ (numbers sharedWidths (sharedNumbers name data) ++
      (Bytes.ofString name ++ data)) := by
  simp only [localRecord, sharedFields, numbers, sharedWidths, sharedNumbers, List.append_assoc,
    List.nil_append]

theorem directoryRecord_eq (name : String) (data : Bytes) (start : Nat) :
    directoryRecord name data start =
      entryMagic ++ (numbers entryWidths (entryNumbers name data start) ++
        Bytes.ofString name) := by
  simp only [directoryRecord, sharedFields, numbers, entryWidths, sharedWidths, entryNumbers,
    sharedNumbers, List.cons_append, List.append_assoc, List.nil_append]

/-- The local headers of files with their contents. -/
def localRecords (files : List (String × Bytes)) : Bytes :=
  files.flatMap fun f => localRecord f.1 f.2

theorem localRecords_cons (name : String) (data : Bytes) (files : List (String × Bytes)) :
    localRecords ((name, data) :: files) = localRecord name data ++ localRecords files := rfl

theorem localRecords_append (files more : List (String × Bytes)) :
    localRecords (files ++ more) = localRecords files ++ localRecords more :=
  List.flatMap_append

theorem write_eq (files : List (String × Bytes)) : write files =
    localRecords files ++ directoryRecords 0 files ++
      endRecord files.length (directoryRecords 0 files).length (localRecords files).length := by
  simp only [write, localRecords, endRecord, numbers, endWidths, List.append_assoc, List.append_nil]

/-! ## The record at the end -/

theorem length_endRecord (count directorySize directoryStart : Nat) :
    (endRecord count directorySize directoryStart).length = endRecordSize := by
  unfold endRecord
  rw [List.length_append, List.length_append, length_numbers (by rfl)]
  rfl

theorem startsWith_endRecord (count directorySize directoryStart : Nat) :
    Bytes.startsWith endMagic (endRecord count directorySize directoryStart) = true :=
  startsWith_append endMagic _

theorem read_endRecord {count directoryStart : Nat} (hcount : count < 256 ^ 2)
    (hstart : directoryStart < 256 ^ 4) (directorySize : Nat) : ∃ size,
      EndRecord.read (endRecord count directorySize directoryStart) =
        .ok ⟨0, 0, count, count, size, directoryStart, 0⟩ := by
  have hlength := length_endRecord count directorySize directoryStart
  generalize hbytes : endRecord count directorySize directoryStart = bs at hlength
  have hshort : Bytes.isShorterThan endRecordSize bs = false :=
    isShorterThan_of_le (Nat.le_of_eq hlength.symm)
  have hdisk : field bs 4 2 = 0 := hbytes ▸ field_numbers 0 rfl rfl rfl (by decide)
  have hdirectoryDisk : field bs 6 2 = 0 := hbytes ▸ field_numbers 1 rfl rfl rfl (by decide)
  have hhere : field bs 8 2 = count := hbytes ▸ field_numbers 2 rfl rfl rfl hcount
  have hfiles : field bs 10 2 = count := hbytes ▸ field_numbers 3 rfl rfl rfl hcount
  have hplace : field bs 16 4 = directoryStart := hbytes ▸ field_numbers 5 rfl rfl rfl hstart
  have hcomment : field bs 20 2 = 0 := hbytes ▸ field_numbers 6 rfl rfl rfl (by decide)
  refine ⟨field bs 12 4, ?_⟩
  unfold EndRecord.read
  dsimp only
  rw [hcomment, Nat.add_zero, hshort, if_neg Bool.false_ne_true, if_neg Bool.false_ne_true, hdisk,
    hdirectoryDisk, hhere, hfiles, hplace]

/-! ## The search for it -/

section
variable (pattern : Bytes)

theorem findAux_found (place : Nat) (bs : Bytes) (found : List (Nat × Bytes)) :
    findAux pattern place bs found = findAux pattern place bs [] ++ found := by
  induction bs generalizing place found with
  | nil => rfl
  | cons b bs ih =>
    unfold findAux
    rw [ih]
    split
    · rw [ih (place + 1) [_], List.append_assoc]
      rfl
    · rfl

theorem findAux_append (place : Nat) (xs ys : Bytes) (found : List (Nat × Bytes)) : ∃ found',
    findAux pattern place (xs ++ ys) found = findAux pattern (place + xs.length) ys found' := by
  induction xs generalizing place found with
  | nil => exact ⟨found, rfl⟩
  | cons x xs ih =>
    rw [List.cons_append, findAux, List.length_cons, Nat.add_comm xs.length, ← Nat.add_assoc]
    exact ih _ _

variable {pattern} in
theorem findAux_length {place : Nat} {bs : Bytes} {x : Nat × Bytes}
    (h : x ∈ findAux pattern place bs []) : x.2.length ≤ bs.length := by
  induction bs generalizing place with
  | nil => cases h
  | cons b bs ih =>
    unfold findAux at h
    rw [findAux_found] at h
    rcases List.mem_append.1 h with h | h
    · exact Nat.le_succ_of_le (ih h)
    · split at h
      · obtain rfl := List.mem_singleton.1 h
        exact Nat.le_refl _
      · cases h

end

/-- Records that are cut off are passed over. -/
theorem searchEntries_short (bs : Bytes) {cut : List (Nat × Bytes)}
    (h : ∀ x ∈ cut, x.2.length < endRecordSize) (rest : List (Nat × Bytes))
    (pending : Option Fault) : ∃ pending',
      searchEntries bs pending (cut ++ rest) = searchEntries bs pending' rest := by
  induction cut generalizing pending with
  | nil => exact ⟨pending, rfl⟩
  | cons x cut ih =>
    obtain ⟨hx, hcut⟩ := List.forall_mem_cons.1 h
    have hread : EndRecord.read x.2 = .error (.io (.endOfData "end of file")) :=
      if_pos ((Bytes.isShorterThan_iff _ _).2 hx)
    rw [List.cons_append, searchEntries, hread]
    exact ih hcut _

/-- The search begins with the record at the end. -/
theorem readDirectory_append (bs : Bytes) {block : Bytes}
    (hmagic : Bytes.startsWith endMagic block = true) (hlength : block.length = endRecordSize) :
    ∃ pending rest, readDirectory (bs ++ block) =
        searchEntries (bs ++ block) pending ((bs.length, block) :: rest) := by
  cases block with
  | nil => cases hlength
  | cons b block =>
    obtain ⟨earlier, hfind⟩ := findAux_append endMagic 0 bs (b :: block) []
    have hcut : ∀ x ∈ findAux endMagic (bs.length + 1) block [], x.2.length < endRecordSize := by
      intro x hx
      rw [← hlength]
      exact Nat.lt_succ_of_le (findAux_length hx)
    obtain ⟨pending, hsearch⟩ := searchEntries_short (bs ++ b :: block) hcut
      ((bs.length, b :: block) :: earlier) none
    refine ⟨pending, earlier, ?_⟩
    rw [readDirectory, findAll, hfind, Nat.zero_add, findAux, hmagic, if_pos rfl, findAux_found]
    exact hsearch

/-! ## The directory -/

/-- The entry of a file whose local header is at `start`. -/
def entryOf (name : String) (data : Bytes) (start : Nat) : Entry :=
  ⟨name, 0, false, false, Digest.Crc32.checksum data, data.length, data.length, start⟩

/-- The entries of files, the first local header standing at `start`. -/
def entriesOf : Nat → List (String × Bytes) → List Entry
  | _, [] => []
  | start, (name, data) :: files =>
    entryOf name data start :: entriesOf (start + (localRecord name data).length) files

theorem map_name_entriesOf (start : Nat) (files : List (String × Bytes)) :
    (entriesOf start files).map Entry.name = files.map Prod.fst := by
  induction files generalizing start with
  | nil => rfl
  | cons f files ih =>
    rw [entriesOf, List.map_cons, ih]
    rfl

theorem entryText_nameFlags (name : String) :
    entryText (hasBit (nameFlags name) 11) (Bytes.ofString name) = name := by
  unfold nameFlags
  split
  · rename_i hascii
    refine CodePage437.decode_ofString fun c hc => ?_
    exact of_decide_eq_true (List.all_eq_true.1 hascii c hc)
  · exact Utf8.decodeLossy_ofString name

theorem hasBit_nameFlags (name : String) : hasBit (nameFlags name) 0 = false := by
  unfold nameFlags
  split <;> rfl

theorem nameFlags_lt (name : String) : nameFlags name < 256 ^ 2 := by
  unfold nameFlags
  split <;> decide

theorem length_directoryRecord (name : String) (data : Bytes) (start : Nat) :
    (directoryRecord name data start).length = 46 + (Bytes.ofString name).length := by
  rw [directoryRecord_eq, List.length_append, List.length_append, length_numbers (by rfl),
    ← Nat.add_assoc]
  rfl

/-- An entry of the directory is read as that of its file. -/
theorem readEntry?_directoryRecord {p : Placement} {name : String} {data : Bytes} {start : Nat}
    (hname : (Bytes.ofString name).length < 256 ^ 2) (hdata : data.length < 256 ^ 4)
    (hstart : start < 256 ^ 4) (hp : p.shift = 0) (hbefore : start < p.start) (rest : Bytes) :
    readEntry? p (directoryRecord name data start ++ rest) =
      some (entryOf name data start, rest) := by
  have hlength := length_directoryRecord name data start
  generalize hbytes : directoryRecord name data start ++ rest = bs
  have hbs : bs = entryMagic ++ (numbers entryWidths (entryNumbers name data start) ++
      (Bytes.ofString name ++ rest)) := by
    rw [← hbytes, directoryRecord_eq]
    simp only [List.append_assoc]
  have hlong : 46 + (Bytes.ofString name).length + 0 + 0 ≤ bs.length := by
    rw [← hbytes, List.length_append, hlength]
    omega
  have hcrc : (Digest.Crc32.checksum data).toNat < 256 ^ 4 :=
    (Digest.Crc32.checksum data).toNat_lt
  have hflags : field bs 8 2 = nameFlags name :=
    hbs ▸ field_numbers 2 rfl rfl rfl (nameFlags_lt name)
  have hmethod : field bs 10 2 = 0 := hbs ▸ field_numbers 3 rfl rfl rfl (by decide)
  have hchecksum : field bs 16 4 = (Digest.Crc32.checksum data).toNat :=
    hbs ▸ field_numbers 6 rfl rfl rfl hcrc
  have hcompressed : field bs 20 4 = data.length := hbs ▸ field_numbers 7 rfl rfl rfl hdata
  have hsize : field bs 24 4 = data.length := hbs ▸ field_numbers 8 rfl rfl rfl hdata
  have hnameLength : field bs 28 2 = (Bytes.ofString name).length :=
    hbs ▸ field_numbers 9 rfl rfl rfl hname
  have hextra : field bs 30 2 = 0 := hbs ▸ field_numbers 10 rfl rfl rfl (by decide)
  have hcomment : field bs 32 2 = 0 := hbs ▸ field_numbers 11 rfl rfl rfl (by decide)
  have hplace : field bs 42 4 = start := hbs ▸ field_numbers 15 rfl rfl rfl hstart
  have hmagic : Bytes.startsWith entryMagic bs = true := hbs ▸ startsWith_append _ _
  have hraw : (bs.drop 46).take (Bytes.ofString name).length = Bytes.ofString name := by
    have hhead : (entryMagic ++ numbers entryWidths (entryNumbers name data start)).length =
        46 := by
      rw [List.length_append, length_numbers (by rfl)]
      rfl
    rw [hbs, ← List.append_assoc, List.drop_left' hhead, List.take_left]
  have hrest : bs.drop (46 + (Bytes.ofString name).length + 0 + 0) = rest := by
    rw [← hbytes]
    exact List.drop_left' hlength
  have hplain : (decide (0 = encryptedMethod) && !false) = false := rfl
  have hshort : Bytes.isShorterThan 46 bs = false :=
    isShorterThan_of_le (Nat.le_trans (Nat.le_add_right 46 _) hlong)
  have hearly : ¬ p.start ≤ start + p.shift := by
    rw [hp]
    exact Nat.not_le.2 hbefore
  unfold readEntry?
  rw [hmagic, hshort, if_neg (by decide)]
  dsimp only
  rw [hnameLength, hextra, hcomment, isShorterThan_of_le hlong, if_neg Bool.false_ne_true, hraw,
    hflags, hmethod, hchecksum, hcompressed, hsize, hplace, hrest, entryText_nameFlags,
    hasBit_nameFlags, UInt32.ofNat_toNat, List.take_zero, List.length_nil]
  dsimp only [readExtras, Option.bind_eq_bind, Option.bind_some]
  rw [hplain, if_neg Bool.false_ne_true, if_neg hearly, hp]
  rfl

theorem length_localRecord (name : String) (data : Bytes) :
    (localRecord name data).length = 30 + (Bytes.ofString name).length + data.length := by
  rw [localRecord_eq, List.length_append, List.length_append, List.length_append,
    length_numbers (by rfl), ← Nat.add_assoc, ← Nat.add_assoc]
  rfl

/-- The directory is read as the entries of its files, which stand before it. -/
theorem readEntries?_directoryRecords (p : Placement) (hp : p.shift = 0) (hfit : p.start < 256 ^ 4)
    {files : List (String × Bytes)}
    (hnames : ∀ f ∈ files, (Bytes.ofString f.1).length < 256 ^ 2) {start : Nat}
    (hend : start + (localRecords files).length = p.start) (rest : Bytes) :
    readEntries? p files.length (directoryRecords start files ++ rest) =
      some (entriesOf start files) := by
  induction files generalizing start with
  | nil => rfl
  | cons f files ih =>
    obtain ⟨name, data⟩ := f
    obtain ⟨hname, hnames⟩ := List.forall_mem_cons.1 hnames
    have hrecord := length_localRecord name data
    rw [localRecords_cons, List.length_append] at hend
    have hdata : data.length < 256 ^ 4 := by omega
    have hstart : start < 256 ^ 4 := by omega
    have hnext : start + (localRecord name data).length + (localRecords files).length =
        p.start := by omega
    have hentry := readEntry?_directoryRecord hname hdata hstart hp (by omega)
      (directoryRecords (start + (localRecord name data).length) files ++ rest)
    have hrest := ih hnames hnext
    rw [directoryRecords, List.append_assoc, List.length_cons, readEntries?, hentry]
    show (readEntries? p files.length _).bind _ = _
    rw [hrest]
    rfl

theorem putEntry_new {e : Entry} {es : List Entry} (h : e.name ∉ es.map Entry.name) :
    putEntry e es = es ++ [e] := by
  induction es with
  | nil => rfl
  | cons d es ih =>
    rw [List.map_cons] at h
    have hne : d.name ≠ e.name := (List.ne_of_not_mem_cons h).symm
    rw [putEntry, if_neg hne, ih (List.not_mem_of_not_mem_cons h)]
    rfl

/-- Entries with distinct names are all kept, in order. -/
theorem foldl_putEntry_distinct {es done : List Entry} (h : ((done ++ es).map Entry.name).Nodup) :
    es.foldl (fun done e => putEntry e done) done = done ++ es := by
  induction es generalizing done with
  | nil => exact (List.append_nil done).symm
  | cons e es ih =>
    have hnew : e.name ∉ done.map Entry.name := by
      rw [List.map_append, List.nodup_append] at h
      exact fun hmem => h.2.2 _ hmem _ List.mem_cons_self rfl
    have hsplit : done ++ e :: es = done ++ [e] ++ es := by simp
    rw [List.foldl_cons, putEntry_new hnew, ih (hsplit ▸ h), ← hsplit]

theorem firstPlace?_start {pattern bs : Bytes} (h : Bytes.startsWith pattern bs = true)
    (hbs : bs ≠ []) (place : Nat) : firstPlace? pattern place bs = some place := by
  cases bs with
  | nil => exact absurd rfl hbs
  | cons b bs => exact if_pos h

/-- The record at the end says where the directory is. -/
theorem placement?_write {files : List (String × Bytes)} (hcount : files.length < 0xFFFF)
    (hsize : (localRecords files).length < 0xFFFFFFFF) (size : Nat) (block : Bytes) :
    EndRecord.placement? (localRecords files ++ directoryRecords 0 files ++ block)
        (localRecords files ++ directoryRecords 0 files).length
        ⟨0, 0, files.length, files.length, size, (localRecords files).length, 0⟩ =
      some ⟨0, (localRecords files).length, files.length, 0, 0⟩ := by
  have hsmall : EndRecord.mayBeLarge
      ⟨0, 0, files.length, files.length, size, (localRecords files).length, 0⟩ = false := by
    unfold EndRecord.mayBeLarge
    rw [Bool.or_eq_false_iff]
    exact ⟨beq_false_of_ne (Nat.ne_of_lt hcount), beq_false_of_ne (Nat.ne_of_lt hsize)⟩
  unfold EndRecord.placement?
  rw [hsmall, if_neg Bool.false_ne_true]
  dsimp only
  cases files with
  | nil => rfl
  | cons f files =>
    have hrecord : directoryRecords 0 (f :: files) = directoryRecord f.1 f.2 0 ++
        directoryRecords (0 + (localRecord f.1 f.2).length) files := rfl
    have hmagic : Bytes.startsWith entryMagic (directoryRecords 0 (f :: files)) = true := by
      rw [hrecord, directoryRecord_eq, List.append_assoc]
      exact startsWith_append _ _
    have hne : directoryRecords 0 (f :: files) ≠ [] := by
      intro hnil
      rw [hnil] at hmagic
      cases hmagic
    have hpos := List.length_pos_iff.2 hne
    have hsome : ¬ (f :: files).length = 0 := Nat.succ_ne_zero _
    rw [if_neg hsome, if_neg (by rw [List.length_append]; omega), List.append_assoc,
      List.drop_left, List.length_append, Nat.add_sub_cancel_left, List.take_left,
      firstPlace?_start hmagic hne, Option.map_some, Nat.sub_self]

/-! ## Contents -/

/-- The contents of a file are read behind its local header. -/
theorem readsAs_entryOf {z : Zip} {pre rest : Bytes} {name : String} {data : Bytes}
    (hname : (Bytes.ofString name).length < 256 ^ 2)
    (hz : z.bytes = pre ++ (localRecord name data ++ rest)) :
    z.ReadsAs (entryOf name data pre.length) data := by
  have hlong : localHeaderSize ≤ (localRecord name data ++ rest).length := by
    rw [List.length_append, length_localRecord, localHeaderSize]
    omega
  have hblock : localRecord name data ++ rest = localMagic ++ (numbers sharedWidths
      (sharedNumbers name data) ++ (Bytes.ofString name ++ (data ++ rest))) := by
    rw [localRecord_eq]
    simp only [List.append_assoc]
  generalize localRecord name data ++ rest = bs at hz hlong hblock
  have hmagic : Bytes.startsWith localMagic bs = true := hblock ▸ startsWith_append _ _
  have hnameLength : field bs 26 2 = (Bytes.ofString name).length :=
    hblock ▸ field_numbers 8 rfl rfl rfl hname
  have hextra : field bs 28 2 = 0 := hblock ▸ field_numbers 9 rfl rfl rfl (by decide)
  have hbehind : bs.drop (localHeaderSize + (Bytes.ofString name).length + 0) = data ++ rest := by
    have hhead : (localMagic ++ numbers sharedWidths (sharedNumbers name data) ++
        Bytes.ofString name).length = localHeaderSize + (Bytes.ofString name).length + 0 := by
      rw [List.length_append, List.length_append, length_numbers (by rfl)]
      rfl
    rw [hblock, ← List.append_assoc, ← List.append_assoc, List.drop_left' hhead]
  have hraw : z.rawContents (entryOf name data pre.length) = .ok data := by
    have hstart : (entryOf name data pre.length).start = pre.length := rfl
    have hcompressed : (entryOf name data pre.length).compressedSize = data.length := rfl
    unfold rawContents
    rw [hstart, hcompressed, hz, List.drop_left]
    dsimp only
    rw [if_neg (Nat.not_lt.2 hlong), hmagic, hnameLength, hextra, hbehind, List.take_left]
    rfl
  exact ⟨rfl, rfl, ⟨data, ByteStream.ofBytes, hraw, rfl, rfl, rfl⟩, rfl⟩

theorem holds_entriesOf {z : Zip} {files : List (String × Bytes)}
    (hnames : ∀ f ∈ files, (Bytes.ofString f.1).length < 256 ^ 2) (pre rest : Bytes)
    (hz : z.bytes = pre ++ (localRecords files ++ rest)) :
    List.Forall₂ (fun e f => e.name = f.1 ∧ z.ReadsAs e f.2 ∧ f.2.length = e.size)
      (entriesOf pre.length files) files := by
  induction files generalizing pre with
  | nil => exact .nil
  | cons f files ih =>
    obtain ⟨name, data⟩ := f
    obtain ⟨hname, hnames⟩ := List.forall_mem_cons.1 hnames
    rw [localRecords_cons, List.append_assoc] at hz
    refine .cons ⟨rfl, readsAs_entryOf hname hz, rfl⟩ ?_
    rw [← List.length_append]
    exact ih hnames (pre ++ localRecord name data) (by rw [hz, List.append_assoc])

/-! ## The whole archive -/

/-- The files fit into the format without its large records, and no two have one name. -/
structure Fits (files : List (String × Bytes)) : Prop where
  distinct : (files.map Prod.fst).Nodup
  names : ∀ f ∈ files, (Bytes.ofString f.1).length < 256 ^ 2
  count : files.length < 0xFFFF
  size : (localRecords files).length < 0xFFFFFFFF

/-- An archive of files is read back as these files. -/
theorem isArchive_write {files : List (String × Bytes)} (h : Fits files) :
    IsArchive (write files) files := by
  have hcount : files.length < 256 ^ 2 := Nat.lt_of_lt_of_le h.count (by decide)
  have hsize : (localRecords files).length < 256 ^ 4 := Nat.lt_of_lt_of_le h.size (by decide)
  have hbytes := write_eq files
  have hmagic := startsWith_endRecord files.length (directoryRecords 0 files).length
    (localRecords files).length
  have hlength := length_endRecord files.length (directoryRecords 0 files).length
    (localRecords files).length
  obtain ⟨size, hend⟩ := read_endRecord hcount hsize (directoryRecords 0 files).length
  generalize endRecord files.length (directoryRecords 0 files).length (localRecords files).length =
    block at hbytes hmagic hlength hend
  -- The reader looks for the last record from the end, and finds the one that was written.
  obtain ⟨pending, earlier, hsearch⟩ :=
    readDirectory_append (localRecords files ++ directoryRecords 0 files) hmagic hlength
  have hplacement := placement?_write h.count h.size size block
  rw [← hbytes] at hsearch hplacement
  have hentries : entriesAt? (write files) ⟨0, (localRecords files).length, files.length, 0, 0⟩ =
      some (entriesOf 0 files) := by
    have hread := readEntries?_directoryRecords ⟨0, (localRecords files).length, files.length, 0, 0⟩
      rfl hsize h.names (Nat.zero_add _) block
    have hnames : (([] ++ entriesOf 0 files).map Entry.name).Nodup := by
      rw [List.nil_append, map_name_entriesOf]
      exact h.distinct
    have hdrop : (write files).drop (localRecords files).length =
        directoryRecords 0 files ++ block := by
      rw [hbytes, List.append_assoc, List.drop_left]
    unfold entriesAt?
    dsimp only
    rw [hdrop, hread, Option.map_some, foldl_putEntry_distinct hnames]
    rfl
  have hdirectory : readDirectory (write files) = .ok (entriesOf 0 files) := by
    rw [hsearch, searchEntries, hend]
    dsimp only
    rw [hplacement]
    dsimp only
    rw [hentries]
  refine ⟨⟨write files, entriesOf 0 files⟩, by rw [ofBytes, hdirectory]; rfl, ?_⟩
  refine holds_entriesOf h.names [] (directoryRecords 0 files ++ block) ?_
  rw [List.nil_append, ← List.append_assoc]
  exact hbytes

end SharedRuntime.Zip
