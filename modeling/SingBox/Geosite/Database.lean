import SingBox.Foundation.Reader

/-!
# The geosite database

A geosite file is an index, with an offset and a length for every code, and the items of all
codes after it. The reader keeps the index and seeks to the items of a code when it is asked for
them; the place where the items begin is known from the number of bytes that the reader has drawn
from the file and those that are still in its buffer.

Strings are byte lists.
-/

namespace SingBox.Geosite

open Foundation List

structure Item where
  type : UInt8
  value : List UInt8
deriving DecidableEq

/-- `map[string][]Item`: the entries in the order of an iteration over the map. -/
structure Database where
  entries : List (List UInt8 × List Item)
  nodup : (entries.map Prod.fst).Nodup

/-- `domains[code]`. -/
def Database.items (db : Database) (code : List UInt8) : List Item :=
  (db.entries.lookup code).getD []

/-- The order of `sort.Strings`. -/
def lexLE : List UInt8 → List UInt8 → Bool
  | [], _ => true
  | _ :: _, [] => false
  | a :: as, b :: bs => if a = b then lexLE as bs else decide (a < b)

/-- The sorted codes. -/
def Database.keys (db : Database) : List (List UInt8) :=
  (db.entries.map Prod.fst).insertionSort fun a b => lexLE a b = true

/-! ### The writer -/

def writeString (value : List UInt8) : List UInt8 := putUvarint value.length ++ value

/-- An item in the content. -/
def writeItem (item : Item) : List UInt8 := item.type :: writeString item.value

/-- The items of a code in the content. -/
def Database.block (db : Database) (code : List UInt8) : List UInt8 :=
  (db.items code).flatMap writeItem

/-- The loop over the codes: `index[code]` is the length of the content before its items. -/
def Database.indexFrom (db : Database) : (offset : ℕ) → List (List UInt8) →
    List (List UInt8 × ℕ × ℕ)
  | _, [] => []
  | offset, code :: codes =>
    (code, offset, (db.items code).length) ::
      db.indexFrom (offset + (db.block code).length) codes

def Database.content (db : Database) : List UInt8 := db.keys.flatMap db.block

/-- An entry of the index. -/
def writeEntry (e : List UInt8 × ℕ × ℕ) : List UInt8 :=
  writeString e.1 ++ (putUvarint e.2.1 ++ putUvarint e.2.2)

/-- The index, with the version before it. -/
def Database.header (db : Database) : List UInt8 :=
  0 :: (putUvarint db.keys.length ++ (db.indexFrom 0 db.keys).flatMap writeEntry)

def write (db : Database) : List UInt8 := db.header ++ db.content

/-! ### The reader -/

/-- The errors of the loops are passed on. -/
def passOn : ℕ → String → String := fun _ err => err

/-- `readString`, which reads byte by byte. -/
def readString : Reader (List UInt8) := do
  let length ← readUvarint
  readMany passOn readByte length 0

/-- `math.MaxInt32`. -/
def maxInt32 : ℕ := 2 ^ 31 - 1

/-- A code in the text of an error. -/
def showCode (code : List UInt8) : String := (String.fromUTF8? ⟨code.toArray⟩).getD ""

/-- One round of `readMetadata`. -/
def readEntry : Reader (List UInt8 × ℕ × ℕ) := do
  let code ← readString
  let codeIndex ← readUvarint
  let codeLength ← readUvarint
  if maxInt32 < codeIndex ∨ maxInt32 < codeLength then
    throw ("invalid metadata entry: " ++ showCode code)
  else pure (code, codeIndex, codeLength)

/-- The index that `readMetadata` reads: the assignments to `domainIndex` and `domainLength`, in
their order. -/
def readMetadata : Reader (List (List UInt8 × ℕ × ℕ)) := do
  let version ← readByte
  if version ≠ 0 then throw "unknown version"
  else
    let entryLength ← readUvarint
    readMany passOn readEntry entryLength 0

/-- `Reader`, over a file that is at the offset `position`. -/
structure GeoReader where
  file : List UInt8
  position : ℕ
  metadataIndex : ℕ
  entries : List (List UInt8 × ℕ × ℕ)

/-- `domainIndex[code]` and `domainLength[code]`: the last assignment holds. -/
def GeoReader.lookup (r : GeoReader) (code : List UInt8) : Option (ℕ × ℕ) :=
  r.entries.reverse.lookup code

/-- The keys of `domainIndex`. -/
def GeoReader.codes (r : GeoReader) : List (List UInt8) := (r.entries.map Prod.fst).dedup

/-- `NewReader`. The buffered reader has drawn the file up to `buffered` bytes, or as many as
there are, behind those that were read; `readCounter` counts what was drawn. -/
def newReader (file : List UInt8) (buffered : ℕ) : Except String (GeoReader × List (List UInt8)) :=
  match readMetadata file with
  | .error err => .error err
  | .ok (entries, rest) =>
    let buffer := min buffered rest.length
    let count := file.length - (rest.length - buffer)
    let reader : GeoReader :=
      { file, position := count, metadataIndex := count - buffer, entries }
    .ok (reader, reader.codes)

/-- One round of `Reader.Read`. -/
def readItem : Reader Item := do
  let typeByte ← readByte
  let value ← readString
  pure { type := typeByte, value }

/-- `Reader.Read`; the file is left behind the bytes that were read, and up to `buffered` more. -/
def GeoReader.read (r : GeoReader) (buffered : ℕ) (code : List UInt8) :
    Except String (List Item) × GeoReader :=
  match r.lookup code with
  | none => (.error ("code " ++ showCode code ++ " not exists!"), r)
  | some (index, length) =>
    -- Seek from the start of the file, and Reset of the buffered reader
    let stream := r.file.drop (r.metadataIndex + index)
    match readMany passOn readItem length 0 stream with
    | .error err => (.error err, { r with position := r.file.length })
    | .ok (items, rest) =>
      (.ok items, { r with position := r.file.length - (rest.length - min buffered rest.length) })

/-- A sequence of `Read` calls. -/
def GeoReader.readAll (r : GeoReader) : List (ℕ × List UInt8) → List (Except String (List Item))
  | [] => []
  | (buffered, code) :: calls =>
    (r.read buffered code).1 :: GeoReader.readAll (r.read buffered code).2 calls

/-! ### Strings, items and entries are read back -/

theorem reads_string (value : List UInt8) : Reads readString (writeString value) value := by
  have hbs := Reads.many_map passOn (fun b (_ : b ∈ value) => reads_byte b) 0
  rw [map_id', flatMap_singleton'] at hbs
  exact (reads_uvarint _).bind hbs

theorem reads_item (item : Item) : Reads readItem (writeItem item) item :=
  (reads_byte item.type).bind ((reads_string item.value).bind_pure (Item.mk item.type))

theorem reads_items (items : List Item) :
    Reads (readMany passOn readItem items.length 0) (items.flatMap writeItem) items := by
  have := Reads.many_map passOn (fun item (_ : item ∈ items) => reads_item item) 0
  rwa [map_id'] at this

variable {db : Database} {e : List UInt8 × ℕ × ℕ} {r : GeoReader}

theorem reads_entry (hi : e.2.1 ≤ maxInt32) (hl : e.2.2 ≤ maxInt32) :
    Reads readEntry (writeEntry e) e := by
  refine (reads_string e.1).bind ((reads_uvarint e.2.1).bind ?_)
  rw [← append_nil (putUvarint e.2.2)]
  refine (reads_uvarint e.2.2).bind ?_
  rw [if_neg (by omega)]
  exact Reads.pure e

/-! ### The index -/

theorem Database.indexFrom_spec (db : Database) (codes : List (List UInt8)) (offset : ℕ)
    (he : e ∈ db.indexFrom offset codes) : e.2.2 = (db.items e.1).length ∧
      ∃ before after, codes.flatMap db.block = before ++ (db.block e.1 ++ after) ∧
        e.2.1 = offset + before.length := by
  induction codes generalizing offset with
  | nil => cases he
  | cons code codes ih =>
    rw [indexFrom, mem_cons] at he
    rcases he with rfl | he
    · exact ⟨rfl, [], codes.flatMap db.block, by rw [flatMap_cons, nil_append], rfl⟩
    · obtain ⟨hl, before, after, hc, hi⟩ := ih _ he
      refine ⟨hl, db.block code ++ before, after, ?_, ?_⟩
      · rw [flatMap_cons, hc, append_assoc]
      · rw [hi, length_append, Nat.add_assoc]

theorem Database.map_fst_indexFrom (db : Database) (codes : List (List UInt8)) (offset : ℕ) :
    (db.indexFrom offset codes).map Prod.fst = codes := by
  induction codes generalizing offset with
  | nil => rfl
  | cons code codes ih => rw [indexFrom, map_cons, ih]

theorem Database.length_indexFrom (db : Database) (codes : List (List UInt8)) (offset : ℕ) :
    (db.indexFrom offset codes).length = codes.length := by
  rw [← length_map (f := Prod.fst), map_fst_indexFrom]

theorem Database.keys_perm (db : Database) : db.keys.Perm (db.entries.map Prod.fst) :=
  perm_insertionSort _ _

theorem Database.nodup_keys (db : Database) : db.keys.Nodup := db.keys_perm.nodup_iff.mpr db.nodup

theorem lookup_eq_some_of_mem {α β : Type} [BEq α] [LawfulBEq α] {l : List (α × β)}
    (hl : (l.map Prod.fst).Nodup) {e : α × β} (he : e ∈ l) : l.lookup e.1 = some e.2 := by
  induction l with
  | nil => cases he
  | cons d l ih =>
    rw [map_cons, nodup_cons] at hl
    rw [lookup_cons]
    rcases mem_cons.mp he with rfl | he
    · rw [beq_self_eq_true]
    · have hne : (e.1 == d.1) = false := by
        rw [beq_eq_false_iff_ne]
        rintro heq
        exact hl.1 (heq ▸ mem_map_of_mem he)
      rw [hne]
      exact ih hl.2 he

/-- The bounds under which the reader accepts the index. -/
structure Database.Small (db : Database) : Prop where
  content : db.content.length ≤ maxInt32
  items : ∀ e ∈ db.entries, e.2.length ≤ maxInt32

theorem Database.Small.length_items (h : db.Small) (code : List UInt8) :
    (db.items code).length ≤ maxInt32 := by
  rw [Database.items]
  cases hl : db.entries.lookup code with
  | none => exact Nat.zero_le _
  | some items =>
    obtain ⟨l, k, he, -⟩ := lookup_eq_some_iff.mp hl
    have hm : (code, items) ∈ db.entries := by
      rw [he]
      exact mem_append_right _ (mem_cons_self ..)
    exact h.items _ hm

open Database GeoReader

theorem reads_metadata (h : db.Small) : Reads readMetadata db.header (db.indexFrom 0 db.keys) := by
  have hent : ∀ e ∈ db.indexFrom 0 db.keys, Reads readEntry (writeEntry e) e := by
    intro e he
    obtain ⟨hl, before, after, hc, hi⟩ := db.indexFrom_spec db.keys 0 he
    have hbd := h.content
    rw [content, hc, length_append] at hbd
    exact reads_entry (by omega) (hl ▸ h.length_items e.1)
  have hen := Reads.many_map passOn hent 0
  rw [map_id', db.length_indexFrom] at hen
  exact (reads_byte 0).bind ((reads_uvarint _).bind hen)

/-! ### Reading the items of a code -/

/-- The reader has the index of the database. -/
structure GeoReader.Serves (r : GeoReader) (db : Database) : Prop where
  file : r.file = write db
  metadataIndex : r.metadataIndex = db.header.length
  entries : r.entries = db.indexFrom 0 db.keys

/-- What `Read` is to return: the items of a code of the map, and an error for another code. -/
def Database.answer (db : Database) (code : List UInt8) : Except String (List Item) :=
  if code ∈ db.keys then .ok (db.items code)
  else .error ("code " ++ showCode code ++ " not exists!")

theorem GeoReader.Serves.lookup_of_mem (h : r.Serves db) (he : e ∈ db.indexFrom 0 db.keys) :
    r.lookup e.1 = some e.2 := by
  have hnd : (r.entries.reverse.map Prod.fst).Nodup := by
    rw [map_reverse, (reverse_perm _).nodup_iff, h.entries, db.map_fst_indexFrom]
    exact db.nodup_keys
  refine lookup_eq_some_of_mem hnd ?_
  rw [mem_reverse, h.entries]
  exact he

theorem GeoReader.Serves.lookup_of_notMem (h : r.Serves db) {code : List UInt8}
    (hc : code ∉ db.keys) : r.lookup code = none := by
  rw [lookup, lookup_eq_none_iff]
  intro e he
  rw [mem_reverse, h.entries] at he
  rw [bne_iff_ne]
  rintro rfl
  exact hc (db.map_fst_indexFrom db.keys 0 ▸ mem_map_of_mem he)

/-- `Read` returns the items of a code, wherever the file was left, and keeps the index. -/
theorem GeoReader.Serves.read (h : r.Serves db) (buf : ℕ) (code : List UInt8) :
    (r.read buf code).1 = db.answer code ∧ (r.read buf code).2.Serves db := by
  by_cases hc : code ∈ db.keys
  · obtain ⟨e, he, rfl⟩ := mem_map.mp ((db.map_fst_indexFrom db.keys 0).symm ▸ hc)
    obtain ⟨hl, before, after, hco, hi⟩ := db.indexFrom_spec db.keys 0 he
    have hs : r.file.drop (r.metadataIndex + e.2.1) = db.block e.1 ++ after := by
      rw [h.file, h.metadataIndex, hi, write, content, hco, Nat.zero_add,
        ← append_assoc, ← length_append, drop_left]
    have hr := reads_items (db.items e.1) after
    rw [GeoReader.read, h.lookup_of_mem he, Database.answer, if_pos hc]
    simp only [hs, hl]
    rw [block, hr]
    exact ⟨rfl, h.file, h.metadataIndex, h.entries⟩
  · rw [GeoReader.read, h.lookup_of_notMem hc, Database.answer, if_neg hc]
    exact ⟨rfl, h⟩

theorem GeoReader.Serves.readAll (h : r.Serves db) (calls : List (ℕ × List UInt8)) :
    r.readAll calls = calls.map fun c => db.answer c.2 := by
  induction calls generalizing r with
  | nil => rfl
  | cons call calls ih =>
    obtain ⟨ha, hs⟩ := h.read call.1 call.2
    rw [readAll, map_cons, ha, ih hs]

/-- The index ends where the drawn bytes end, less those that are buffered. -/
theorem newReader_serves (h : db.Small) (buf : ℕ) :
    ∃ r, newReader (write db) buf = .ok (r, r.codes) ∧ r.Serves db := by
  have hr : readMetadata (write db) = .ok (db.indexFrom 0 db.keys, db.content) :=
    reads_metadata h db.content
  refine ⟨{ file := write db
            position := (write db).length - (db.content.length - min buf db.content.length)
            metadataIndex := (write db).length -
              (db.content.length - min buf db.content.length) - min buf db.content.length
            entries := db.indexFrom 0 db.keys }, ?_, rfl, ?_, rfl⟩
  · rw [newReader, hr]
  · simp only [write, length_append]
    omega

/-- **A geosite database is read back.** The reader over a written database lists the codes of
the map, and every sequence of `Read` calls returns the items of the codes asked for, however
much of the file the buffered readers draw ahead. -/
theorem newReader_write (db : Database) (hcontent : db.content.length ≤ maxInt32)
    (hitems : ∀ e ∈ db.entries, e.2.length ≤ maxInt32) (buffered : ℕ) :
    ∃ r codes, newReader (write db) buffered = .ok (r, codes) ∧
      codes.Perm (db.entries.map Prod.fst) ∧
      ∀ calls : List (ℕ × List UInt8), r.readAll calls = calls.map fun c => db.answer c.2 := by
  obtain ⟨r, hr, hs⟩ := newReader_serves ⟨hcontent, hitems⟩ buffered
  refine ⟨r, r.codes, hr, ?_, hs.readAll⟩
  rw [codes, hs.entries, db.map_fst_indexFrom, List.Nodup.dedup db.nodup_keys]
  exact db.keys_perm

/-- Two codes, one of them without items. -/
def exampleDatabase : Database where
  entries := [([98], [⟨0, [120, 46]⟩, ⟨3, []⟩]), ([97], [])]
  nodup := by decide

theorem newReader_write_example : ∃ r codes, newReader (write exampleDatabase) 1 = .ok (r, codes) ∧
      codes.Perm [[98], [97]] ∧
      r.readAll [(0, [97]), (9, [98])] = [.ok [], .ok [⟨0, [120, 46]⟩, ⟨3, []⟩]] := by
  have hcn : exampleDatabase.content = [0, 2, 120, 46, 3, 0] := by decide +kernel
  obtain ⟨r, codes, hr, hco, hc⟩ := newReader_write exampleDatabase
    (by rw [hcn]; decide) (by simp [exampleDatabase, maxInt32]) 1
  refine ⟨r, codes, hr, hco, (hc _).trans ?_⟩
  simp only [map_cons, map_nil, answer]
  decide +kernel

end SingBox.Geosite
