import Bitcoin.Proofs.Wire.Canonical

/-!
# Rows of Items

A message is a row of items, written one behind the other with nothing between them. Since
no item tells what it is, everything rests on each of them being read with exactly the bytes
that have been written for it: one byte more or less, and all items behind it are different
ones. Here the formats are put together into what holds of every row, in any order.

The other half is about strings that nobody has written, and reads that nobody has asked for.
A read that fails does not end anything: whoever reads may go on with what it has left. So it
matters what that is. A read of so many bytes leaves all of them, and a read made of
several parts leaves what comes behind the parts that it has completed.

## Main definitions

* `Item.Writable`: Items whose length has room in a word.
* `Item.Format.width?`: How many bytes a format takes, where this is always the same.
* `Item.readEach`: Reads one after the other, of which any may fail.

## Theorems

* `Item.read_encode`, `Item.of_read`, `Item.exact_read`: Every format reads the items of this
  format and nothing else.
* `Item.allOrNothing_read`, `Item.readBlock_eq_error`: What a read that fails has taken.
* `Item.readEach_append`: A row that has been written.
* `Item.suffix_of_readEach`: Any reads of any string.
* `Item.rows_exact`: Both halves.
-/

namespace Bitcoin.Item

/-- An item that can be written: where its length is written in front of it, this has room in
    a word. -/
def Writable : Item → Prop
  | .block bytes => bytes.length < 2 ^ 64
  | _ => True

/-- How many bytes a format takes, where this is always the same. -/
def Format.width? : Format → Option Nat
  | .u8 => some 1
  | .u16 => some 2
  | .u32 => some 4
  | .u64 => some 8
  | .hash => some 32
  | .raw count => some count
  | .size | .block => none

/-- Reads of the given formats, one after the other, and what they leave. Each begins where
    the one before has left off, also if this one has failed. -/
def readEach : List Format → Bytes → List (Except Error Item) × Bytes
  | [], bytes => ([], bytes)
  | format :: formats, bytes =>
    match read format bytes with
    | .ok item rest =>
      let (results, left) := readEach formats rest
      (.ok item :: results, left)
    | .error e rest =>
      let (results, left) := readEach formats rest
      (.error e :: results, left)

variable {item : Item} {format : Format} {bytes rest : Bytes} {e : Error}

-- The read of an item is the read of what the item is made of.
theorem make_eq_ok {α : Type} {reader : Reader α} {make : α → Item} {valid : α → Prop}
    {encoding : α → Bytes} (h : ReadsExactly reader valid encoding) :
    (do return make (← reader) : Reader Item) bytes = .ok item rest ↔
      ∃ value, valid value ∧ make value = item ∧ bytes = encoding value ++ rest := by
  rw [h.bind_eq_ok]
  constructor
  · rintro ⟨value, between, hvalue, hbytes, hreturn⟩
    cases hreturn
    exact ⟨value, hvalue, rfl, hbytes⟩
  · rintro ⟨value, hvalue, rfl, hbytes⟩
    exact ⟨value, rest, hvalue, hbytes, rfl⟩

/-- An item that has been written reads back, whatever stands behind it. -/
theorem read_encode (h : item.Writable) (rest : Bytes) :
    read item.format (item.encode ++ rest) = .ok item rest := by
  cases item with
  | u8 value => exact (make_eq_ok Reader.exact_u8).mpr ⟨value, trivial, rfl, rfl⟩
  | u16 value => exact (make_eq_ok Reader.exact_u16).mpr ⟨value, trivial, rfl, rfl⟩
  | u32 value => exact (make_eq_ok Reader.exact_u32).mpr ⟨value, trivial, rfl, rfl⟩
  | u64 value => exact (make_eq_ok Reader.exact_u64).mpr ⟨value, trivial, rfl, rfl⟩
  | size value => exact (make_eq_ok CompactSize.exact_read).mpr ⟨value, trivial, rfl, rfl⟩
  | hash value => exact (make_eq_ok (Reader.exact_vec 32)).mpr ⟨value, trivial, rfl, rfl⟩
  | raw bytes => exact (make_eq_ok (Reader.exact_take _)).mpr ⟨bytes, rfl, rfl, rfl⟩
  | block bytes => exact (make_eq_ok exact_readBlock).mpr ⟨bytes, h, rfl, rfl⟩

/-- An item that has been read is of the format, and its bytes have been taken. -/
theorem of_read (h : read format bytes = .ok item rest) :
    (item.format = format ∧ item.Writable) ∧ bytes = item.encode ++ rest := by
  cases format with
  | u8 =>
      rcases (make_eq_ok Reader.exact_u8).mp h with ⟨value, -, rfl, hbytes⟩
      exact ⟨⟨rfl, trivial⟩, hbytes⟩
  | u16 =>
      rcases (make_eq_ok Reader.exact_u16).mp h with ⟨value, -, rfl, hbytes⟩
      exact ⟨⟨rfl, trivial⟩, hbytes⟩
  | u32 =>
      rcases (make_eq_ok Reader.exact_u32).mp h with ⟨value, -, rfl, hbytes⟩
      exact ⟨⟨rfl, trivial⟩, hbytes⟩
  | u64 =>
      rcases (make_eq_ok Reader.exact_u64).mp h with ⟨value, -, rfl, hbytes⟩
      exact ⟨⟨rfl, trivial⟩, hbytes⟩
  | size =>
      rcases (make_eq_ok CompactSize.exact_read).mp h with ⟨value, -, rfl, hbytes⟩
      exact ⟨⟨rfl, trivial⟩, hbytes⟩
  | hash =>
      rcases (make_eq_ok (Reader.exact_vec 32)).mp h with ⟨value, -, rfl, hbytes⟩
      exact ⟨⟨rfl, trivial⟩, hbytes⟩
  | raw count =>
      -- Of raw bytes the format knows the number.
      rcases (make_eq_ok (Reader.exact_take count)).mp h with ⟨value, rfl, rfl, hbytes⟩
      exact ⟨⟨rfl, trivial⟩, hbytes⟩
  | block =>
      rcases (make_eq_ok exact_readBlock).mp h with ⟨value, hlength, rfl, hbytes⟩
      exact ⟨⟨rfl, hlength⟩, hbytes⟩

/-- Every format reads the items of this format and nothing else. -/
theorem exact_read (format : Format) :
    ReadsExactly (read format) (fun item => item.format = format ∧ item.Writable) encode := by
  intro bytes item rest
  refine ⟨of_read, ?_⟩
  rintro ⟨⟨rfl, hwritable⟩, rfl⟩
  exact read_encode hwritable rest

/-- A format that always takes the same number of bytes takes none of them where there are
    fewer. -/
theorem allOrNothing_read {width : Nat} (h : format.width? = some width) :
    Reader.AllOrNothing (read format) width := by
  cases format with
  | u8 =>
      cases h
      exact ((Reader.allOrNothing_nat 1).map UInt8.ofNat).map Item.u8
  | u16 =>
      cases h
      exact ((Reader.allOrNothing_nat 2).map UInt16.ofNat).map Item.u16
  | u32 =>
      cases h
      exact ((Reader.allOrNothing_nat 4).map UInt32.ofNat).map Item.u32
  | u64 =>
      cases h
      exact ((Reader.allOrNothing_nat 8).map UInt64.ofNat).map Item.u64
  | hash =>
      cases h
      exact (Reader.allOrNothing_vec 32).map Item.hash
  | raw =>
      cases h
      exact (Reader.allOrNothing_take width).map Item.raw
  | size => cases h
  | block => cases h

theorem readSize_eq_error : read .size bytes = .error e rest ↔
    ∃ taken, bytes = taken ++ rest ∧ CompactSize.Breaks taken rest e :=
  (Reader.map_eq_error Item.size).trans CompactSize.read_eq_error

/-- Where bytes behind their number are not read, their number has been taken, unless it is the
    number that is not read. -/
theorem readBlock_eq_error : read .block bytes = .error e rest ↔
    ∃ taken, bytes = taken ++ rest ∧ (CompactSize.Breaks taken rest e ∨
      ∃ size, taken = CompactSize.encode size ∧ rest.length < size.toNat ∧
        e = .unexpectedEnd) := by
  have hblock : read .block bytes = .error e rest ↔ readBlock bytes = .error e rest :=
    Reader.map_eq_error Item.block
  rw [hblock, readBlock, Steps.bind_eq_error, CompactSize.read_eq_error]
  constructor
  · rintro (⟨taken, hsplit, hbreaks⟩ | ⟨size, between, hsize, htake⟩)
    · exact ⟨taken, hsplit, .inl hbreaks⟩
    · -- The count is read, so that the bytes it promises are too few.
      rcases CompactSize.exact_read.mp hsize with ⟨-, rfl⟩
      rcases (Reader.allOrNothing_take size.toNat).mp htake with ⟨rfl, rfl, hshort⟩
      exact ⟨_, rfl, .inr ⟨size, rfl, hshort, rfl⟩⟩
  · rintro ⟨taken, rfl, hbreaks | ⟨size, rfl, hshort, rfl⟩⟩
    · exact .inl ⟨taken, rfl, hbreaks⟩
    · exact .inr ⟨size, rest, CompactSize.exact_read.append trivial rest,
        (Reader.allOrNothing_take size.toNat).mpr ⟨rfl, rfl, hshort⟩⟩

/-- A row that has been written reads back, whatever stands behind it. -/
theorem readEach_append {items : List Item} (h : ∀ item ∈ items, item.Writable) (rest : Bytes) :
    readEach (items.map Item.format) (items.flatMap encode ++ rest) = (items.map .ok, rest) := by
  induction items with
  | nil => rfl
  | cons item items ih =>
      rcases List.forall_mem_cons.mp h with ⟨hitem, hitems⟩
      rw [List.map_cons, List.map_cons, List.flatMap_cons, List.append_assoc, readEach,
        read_encode hitem]
      simp only [ih hitems]

/-- Whatever comes of a read, it leaves an end of what it has found. -/
theorem suffix_of_read (format : Format) (bytes : Bytes) :
    (∀ item rest, read format bytes = .ok item rest → rest <:+ bytes) ∧
      ∀ e rest, read format bytes = .error e rest → rest <:+ bytes := by
  refine ⟨fun item rest h => ?_, fun e rest h => ?_⟩
  · exact ⟨item.encode, (of_read h).2.symm⟩
  · -- A failed read of a fixed width takes nothing. The two other formats may have taken their
    -- count.
    rcases hwidth : format.width? with _ | width
    · cases format with
      | size =>
          rcases readSize_eq_error.mp h with ⟨taken, hsplit, _⟩
          exact ⟨taken, hsplit.symm⟩
      | block =>
          rcases readBlock_eq_error.mp h with ⟨taken, hsplit, _⟩
          exact ⟨taken, hsplit.symm⟩
      | _ => cases hwidth
    · rcases (allOrNothing_read hwidth).mp h with ⟨-, rfl, -⟩
      exact List.suffix_rfl

/-- Any reads of any string leave an end of it. -/
theorem suffix_of_readEach (formats : List Format) (bytes : Bytes) :
    (readEach formats bytes).2 <:+ bytes := by
  induction formats generalizing bytes with
  | nil => exact List.suffix_rfl
  | cons format formats ih =>
      rw [readEach]
      rcases hread : read format bytes with ⟨item, rest⟩ | ⟨e, rest⟩
      · exact (ih rest).trans ((suffix_of_read format bytes).1 item rest hread)
      · exact (ih rest).trans ((suffix_of_read format bytes).2 e rest hread)

/-- Reading undoes writing: the formats of a row of items, in their order, read from what has
    been written exactly these items, and nothing is left. Over any string, however many
    reads there have been and whichever of them have failed, what is left is the string from
    some place within it on. From there, each format reads the items of this format and
    nothing else. A format of so many bytes that fails has taken nothing, and another one
    only the parts that it has completed. -/
theorem rows_exact :
    (∀ items : List Item, (∀ item ∈ items, item.Writable) →
      readEach (items.map Item.format) (items.flatMap encode) = (items.map .ok, [])) ∧
    ∀ (formats : List Format) (data : Bytes),
      ∃ position ≤ data.length, (readEach formats data).2 = data.drop position ∧
        let left := data.drop position
        (∀ format item rest, read format left = .ok item rest ↔
          (item.format = format ∧ item.Writable) ∧ left = item.encode ++ rest) ∧
        (∀ format width, format.width? = some width → ∀ e rest,
          read format left = .error e rest ↔
            e = .unexpectedEnd ∧ rest = left ∧ left.length < width) ∧
        (∀ e rest, read .size left = .error e rest ↔
          ∃ taken, left = taken ++ rest ∧ CompactSize.Breaks taken rest e) ∧
        ∀ e rest, read .block left = .error e rest ↔
          ∃ taken, left = taken ++ rest ∧ (CompactSize.Breaks taken rest e ∨
            ∃ size, taken = CompactSize.encode size ∧ rest.length < size.toNat ∧
              e = .unexpectedEnd) := by
  refine ⟨fun items h => ?_, fun formats data => ?_⟩
  · have hread := readEach_append h []
    rwa [List.append_nil] at hread
  · -- What any reads leave is a suffix, at some position, and the formats behave at it as
    -- anywhere.
    have hleft := List.suffix_iff_eq_drop.mp (suffix_of_readEach formats data)
    exact ⟨data.length - (readEach formats data).2.length, Nat.sub_le _ _, hleft,
      fun format item rest => @exact_read format _ item rest,
      fun format width h e rest => @allOrNothing_read format width h _ e rest,
      fun e rest => readSize_eq_error, fun e rest => readBlock_eq_error⟩

/-- The length of a block is gone, and the next read begins with what there is of the block. -/
example : readEach [.block, .u8] [5, 1, 2] = ([.error .unexpectedEnd, .ok (.u8 1)], [2]) := by
  rfl

/-- A row with every kind of item that a message is written with. -/
theorem rows_exact_mixed :
    let items : List Item :=
      [.u8 0x42, .u32 0xdeadbeef, .size 253, .block [1, 2], .raw [], .u64 0x0102030405060708,
        .raw [9, 9, 9]]
    (∀ item ∈ items, item.Writable) ∧
      items.flatMap encode =
        [0x42, 0xef, 0xbe, 0xad, 0xde, 0xfd, 0xfd, 0, 2, 1, 2, 8, 7, 6, 5, 4, 3, 2, 1, 9, 9, 9] ∧
      readEach (items.map Item.format) (items.flatMap encode) = (items.map .ok, []) := by
  intro items
  have hwritable : ∀ item ∈ items, item.Writable := by
    simp [items, Writable]
  exact ⟨hwritable, by decide, rows_exact.1 items hwritable⟩

end Bitcoin.Item
