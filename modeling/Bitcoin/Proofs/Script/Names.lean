import Bitcoin.Proofs.Script.Building
import Mathlib.Data.List.Nodup

/-!
# The Names of Opcodes

A name is looked up among the second names, then among those that stand for nothing, and then
by trying one opcode after the other. That it finds the opcode it was written for is a matter
of no two names being the same, and this is checked once, for the list of all names. Each
opcode has a place in that list, where its name stands. What the lookup does then follows
from arithmetic on places: the opcodes whose names stand for nothing are known by their
places, and so is each of the others.

## Main definitions

* `HasName`: The opcodes that a name stands for.
* `names`, `namePlace`: All names, and where that of an opcode stands.

## Theorems

* `nodup_names`: No two names are the same.
* `eq_of_name_eq`, `name_mem_unnamable_iff`: What the name of an opcode says.
* `ofName?_name`, `hasName_of_ofName?`: What is found by a name.
* `of_mem_names`: What all names look like.
-/

namespace Bitcoin.Opcode

variable {op other : UInt8} {text : String}

/-- The opcodes that a name stands for: they need no payload, and they are assigned, or the
    last one. -/
def HasName (op : UInt8) : Prop :=
  Script.needsPayload op = false ∧ ¬(0xba ≤ op ∧ op ≤ 0xfe)

instance : DecidablePred HasName := fun _ => inferInstanceAs (Decidable (_ ∧ _))

/-- The opcodes with a name, told by their numbers. -/
theorem hasName_iff :
    HasName op ↔ (op.toNat = 0 ∨ 78 < op.toNat) ∧ ¬(186 ≤ op.toNat ∧ op.toNat ≤ 254) := by
  have hpayload : Script.needsPayload op = false ↔ op.toNat = 0 ∨ 78 < op.toNat := by
    rw [Bool.eq_false_iff, ne_eq, Script.needsPayload_iff, UInt8.le_iff_toNat_le,
      UInt8.le_iff_toNat_le]
    change ¬(1 ≤ op.toNat ∧ op.toNat ≤ 78) ↔ _
    omega
  rw [HasName, hpayload, UInt8.le_iff_toNat_le, UInt8.le_iff_toNat_le]
  rfl

/-- All names that there are: the second names, those that are not in the table, and those that
    are. -/
def names : List String :=
  aliases.map (·.1) ++ "OP_0" :: "OP_PUSHBYTES" :: "OP_INVALIDOPCODE" :: "OP_UNKNOWN" ::
    table.map (·.1)

/-- Where the name of an opcode stands among them. -/
def namePlace (op : UInt8) : Nat :=
  if op.toNat = 0 then 4
  else if op.toNat ≤ 75 then 5
  else if op.toNat = 255 then 6
  else if 186 ≤ op.toNat then 7
  else op.toNat - 76 + 8

-- The names are told apart by their bytes, read as numbers.
theorem nodup_names : names.Nodup :=
  List.Nodup.of_map (fun name => Bytes.toNatLE name.toByteArray.data.toList) (by decide +kernel)

theorem getElem?_names (place : Nat) : names[place + 8]? = table[place]?.map (·.1) :=
  (show names[place + 8]? = (table.map (·.1))[place]? from rfl).trans List.getElem?_map

/-- The name of an opcode stands at its place among the names. -/
theorem getElem?_namePlace (op : UInt8) : names[namePlace op]? = some (name op) := by
  have hzero : op = zero ↔ op.toNat = 0 := UInt8.toNat_inj.symm
  have hdirect : op ≤ maxDirect ↔ op.toNat ≤ 75 := UInt8.le_iff_toNat_le
  have hlast : op = 0xff ↔ op.toNat = 255 := UInt8.toNat_inj.symm
  rw [namePlace, name, assigned?]
  simp only [hzero, hdirect, hlast]
  split_ifs with hzero hdirect hlast hhigh
  · rfl
  · rfl
  · rfl
  · -- Above the table no opcode is assigned.
    have hnone : table[op.toNat - pushData1.toNat]? = none :=
      List.getElem?_eq_none (show 110 ≤ op.toNat - 76 by omega)
    rw [hnone]
    rfl
  · have hlt : op.toNat - 76 < table.length := show op.toNat - 76 < 110 by omega
    rw [getElem?_names, show pushData1.toNat = 76 from rfl, List.getElem?_eq_getElem hlt]
    rfl

/-- The place of a name is known from the name. -/
theorem eq_namePlace {place : Nat} (h : names[place]? = some (name op)) :
    place = namePlace op := by
  have hlt : namePlace op < names.length :=
    (List.getElem?_eq_some_iff.mp (getElem?_namePlace op)).1
  exact ((List.getElem?_inj hlt nodup_names).mp ((getElem?_namePlace op).trans h.symm)).symm

/-- An opcode that a name stands for shares it with no other. -/
theorem eq_of_name_eq (h : HasName op) (hsame : name other = name op) : other = op := by
  have hplace := eq_namePlace (hsame ▸ getElem?_namePlace other)
  rw [hasName_iff] at h
  rw [← UInt8.toNat_inj]
  have hop := op.toNat_lt
  have hother := other.toNat_lt
  rw [namePlace, namePlace] at hplace
  split_ifs at hplace <;> omega

/-- The words kept from being read are the names of the opcodes without one. -/
theorem name_mem_unnamable_iff : name op ∈ unnamable ↔ ¬HasName op := by
  have hplaces : unnamable = [5, 7, 8, 9, 10].filterMap (names[·]?) := rfl
  have hmem : name op ∈ unnamable ↔ namePlace op ∈ [5, 7, 8, 9, 10] := by
    rw [hplaces, List.mem_filterMap]
    constructor
    · rintro ⟨place, hplace, hname⟩
      exact eq_namePlace hname ▸ hplace
    · intro hplace
      exact ⟨_, hplace, getElem?_namePlace op⟩
  have hop := op.toNat_lt
  rw [hmem, hasName_iff, namePlace]
  simp only [List.mem_cons, List.not_mem_nil, or_false]
  split_ifs <;> omega

theorem name_not_mem_aliases (op : UInt8) : name op ∉ aliases.map (·.1) := by
  intro hmem
  rcases List.mem_iff_getElem?.mp hmem with ⟨place, hplace⟩
  have hlt : place < 4 := (List.getElem?_eq_some_iff.mp hplace).1
  have hname := eq_namePlace ((List.getElem?_append_left hlt).trans hplace)
  rw [namePlace] at hname
  split_ifs at hname <;> omega

theorem mem_all (op : UInt8) : op ∈ all :=
  List.mem_map.mpr ⟨op.toNat, List.mem_range.mpr op.toNat_lt, UInt8.ofNat_toNat⟩

/-- An opcode that a name stands for is found by its own one. -/
theorem ofName?_name (h : HasName op) : ofName? (name op) = some op := by
  have hlookup : aliases.lookup (name op) = none := by
    refine List.lookup_eq_none_iff.mpr fun entry hentry => bne_iff_ne.mpr fun hsame => ?_
    exact name_not_mem_aliases op (hsame ▸ List.mem_map_of_mem hentry)
  have hnamable : name op ∉ unnamable := fun hmem => name_mem_unnamable_iff.mp hmem h
  rw [ofName?, hlookup]
  simp only [if_neg hnamable]
  rcases hfound : all.find? (fun other => name other = name op) with _ | other
  · exact absurd (decide_eq_true rfl) (List.find?_eq_none.mp hfound op (mem_all op))
  · have hname := List.find?_some hfound
    rw [eq_of_name_eq h (of_decide_eq_true hname)]

/-- Whatever text an opcode is found by, it is one that a name stands for. -/
theorem hasName_of_ofName? (h : ofName? text = some op) : HasName op ∧ text ∈ names := by
  rw [ofName?] at h
  split at h
  · -- The word is one of the other names of an opcode.
    next found hlookup =>
      cases h
      rcases List.lookup_eq_some_iff.mp hlookup with ⟨before, behind, haliases, -⟩
      have hmem : (text, op) ∈ aliases := haliases ▸ List.mem_append_right _ List.mem_cons_self
      have hall : ∀ entry ∈ aliases, HasName entry.2 := by decide
      exact ⟨hall _ hmem, List.mem_append_left _ (List.mem_map_of_mem hmem)⟩
  · split at h
    · cases h
    · next hnamable =>
        have hname := List.find?_some h
        rw [← of_decide_eq_true hname] at hnamable ⊢
        exact ⟨not_not.mp fun hc => hnamable (name_mem_unnamable_iff.mpr hc),
          List.mem_of_getElem? (getElem?_namePlace op)⟩

/-- A name begins with the same letter as all others, and all its characters are visible. -/
theorem of_mem_names (h : text ∈ names) : text.toList.head? = some 'O' ∧
    ∀ c ∈ text.toList, 0x21 ≤ c.toNat ∧ c.toNat ≤ 0x7e := by
  have hall : names.all (fun name => name.toList.head? = some 'O' ∧
      name.toList.all fun c => 0x21 ≤ c.toNat ∧ c.toNat ≤ 0x7e) = true := by
    decide +kernel
  rcases of_decide_eq_true (List.all_eq_true.mp hall text h) with ⟨hfirst, hvisible⟩
  exact ⟨hfirst, fun c hc => of_decide_eq_true (List.all_eq_true.mp hvisible c hc)⟩

end Bitcoin.Opcode
