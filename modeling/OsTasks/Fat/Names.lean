import Mathlib.Data.List.DropRight
import Mathlib.Data.List.Forall2
import Mathlib.Data.Nat.ModEq
import OsTasks.Lib.LinkedList
import OsTasks.Fat.Directory
import OsTasks.Fat.Image

/-!
# Names

`vfat_readdir` and `lfn_checksum` of `vfat.c`, which work on the names of directory entries.

`vfat_readdir` copies the eight bytes of a name into a buffer of eight bytes. So there is no place
for a NUL behind a name of full length, and the extension is left out. `names_iff` says for which
lists of entries the names can be told apart all the same.

`lfnChecksum_detects` is about the checksum of a short name. Each round rotates the sum and adds a
byte, and both can be undone modulo 256.
-/

set_option autoImplicit false

namespace OsTasks.Fat

open OsTasks.Lib

/-! ## Listing a directory -/

/-- `strncpy`: the bytes that are stored. The string ends at its first NUL, and is filled up with
NULs. -/
def strncpy (src : Memory) (n : Nat) : List UInt8 :=
  let text := ((List.range n).map src).takeWhile (· ≠ 0)
  text ++ List.replicate (n - text.length) 0

/-- The buffer that is passed to `filler` for an entry. -/
def readdirName (record : Memory) : List UInt8 :=
  (List.range 8).map (trimNstr (fill (fun _ => 0) (strncpy record 8)) 0 8)

/-- The fault of a walk through a list. -/
inductive ListFault where
  /-- A pointer of the list leads nowhere. -/
  | wildPointer
  deriving DecidableEq, Repr

/-- `vfat_readdir`: the names that are passed to `filler`, one after the other. -/
def vfatReaddir (nodes : List (Node Memory)) (fuel : Nat) (currentDirentriesList : Option Nat) :
    Option (Except ListFault (List (List UInt8))) :=
  loop (walkTurn nodes .wildPointer (fun names record => .inl (names ++ [readdirName record])) id)
    fuel (currentDirentriesList, [[0x2E, 0x00], [0x2E, 0x2E, 0x00]])

/-! ## Strings -/

/-- The string in a buffer, if the buffer has a NUL. -/
def cString (buffer : List UInt8) : Option (List UInt8) :=
  if 0 ∈ buffer then some (buffer.takeWhile (· ≠ 0)) else none

/-- The eight bytes of a name. -/
def nameBytes (record : Memory) : List UInt8 := (List.range 8).map record

/-- The part of a name that can be told from its bytes: the bytes up to the first NUL, and without a
NUL the bytes without the blanks at the end. -/
def stem (record : Memory) : List UInt8 :=
  if 0 ∈ nameBytes record then (nameBytes record).takeWhile (· ≠ 0)
  else (nameBytes record).rdropWhile (· = 0x20)

/-- There is place for a NUL: the name has one, or it ends with a blank. -/
def HasPlace (record : Memory) : Prop := 0 ∈ nameBytes record ∨ record 7 = 0x20

instance (record : Memory) : Decidable (HasPlace record) := inferInstanceAs (Decidable (_ ∨ _))

section Strings

/-- A string that is followed by NULs. -/
theorem cString_zeros {text : List UInt8} (present : ∀ byte ∈ text, byte ≠ 0) (n : Nat) :
    cString (text ++ List.replicate n 0) = if n = 0 then none else some text := by
  cases n with
  | zero =>
      have none : 0 ∉ text := fun inside => present 0 inside rfl
      simp [cString, none]
  | succ n =>
      have inside : 0 ∈ text ++ List.replicate (n + 1) 0 :=
        List.mem_append_right _ List.mem_cons_self
      rw [cString, if_pos inside, List.takeWhile_append_of_pos (by simpa using present)]
      simp [List.replicate_succ]

theorem trimNstr_list (mem : Memory) (n : Nat) : (List.range n).map (trimNstr mem 0 n) =
    ((List.range n).map mem).rdropWhile (· = 0x20) ++
      List.replicate (((List.range n).map mem).rtakeWhile (· = 0x20)).length 0 := by
  induction n generalizing mem with
  | zero => rfl
  | succ n ih =>
      rw [List.range_succ, List.map_append, List.map_append, List.map_singleton,
        List.map_singleton, trimNstr, Nat.zero_add]
      by_cases blank : mem n = 0x20
      · have before : (List.range n).map (Function.update mem n 0) = (List.range n).map mem := by
          refine List.map_congr_left fun i inside => Function.update_of_ne ?_ 0 mem
          exact Nat.ne_of_lt (List.mem_range.mp inside)
        have behind : trimNstr (Function.update mem n 0) 0 n n = 0 := by
          rw [trimNstr_eq, if_neg (by omega), Function.update_self]
        rw [if_pos blank, ih, before, behind,
          List.rdropWhile_concat_pos _ _ _ (by simpa using blank),
          List.rtakeWhile_concat_pos _ _ _ (by simpa using blank), List.length_append,
          List.length_singleton, List.replicate_add, List.append_assoc]
        rfl
      · rw [if_neg blank, List.rdropWhile_concat_neg _ _ _ (by simpa using blank),
          List.rtakeWhile_concat_neg _ _ _ (by simpa using blank)]
        exact (List.append_nil _).symm

theorem map_fill (mem : Memory) (bytes : List UInt8) :
    (List.range bytes.length).map (fill mem bytes) = bytes := by
  refine List.ext_getElem? fun i => ?_
  rw [List.getElem?_map]
  by_cases inside : i < bytes.length
  · rw [List.getElem?_range inside, Option.map_some, fill, List.getD_eq_getElem?_getD,
      List.getElem?_eq_getElem inside]
    rfl
  · rw [List.getElem?_eq_none (by simpa using inside), List.getElem?_eq_none (by omega)]
    rfl

theorem readdirName_eq (record : Memory) : readdirName record =
    (strncpy record 8).rdropWhile (· = 0x20) ++
      List.replicate ((strncpy record 8).rtakeWhile (· = 0x20)).length 0 := by
  have length : (strncpy record 8).length = 8 := by
    have short : (((List.range 8).map record).takeWhile (· ≠ 0)).length ≤ _ :=
      (List.takeWhile_sublist _).length_le
    simp only [List.length_map, List.length_range] at short
    simp only [strncpy, List.length_append, List.length_replicate]
    omega
  have copied := map_fill (fun _ => 0) (strncpy record 8)
  rw [length] at copied
  rw [readdirName, trimNstr_list, copied]

/-- The name of an entry that `filler` can read. -/
theorem cString_readdirName (record : Memory) :
    cString (readdirName record) = if HasPlace record then some (stem record) else none := by
  have eight : (nameBytes record).length = 8 := by simp [nameBytes]
  rw [readdirName_eq, strncpy, ← nameBytes, stem]
  by_cases null : 0 ∈ nameBytes record
  · have place : HasPlace record := .inl null
    rw [if_pos place, if_pos null]
    -- The string is filled up with a NUL at least, which stops the trimming.
    have short : ((nameBytes record).takeWhile (· ≠ 0)).length < 8 := by
      rw [← eight]
      refine lt_of_le_of_ne (List.takeWhile_sublist _).length_le fun whole => ?_
      have all := (List.takeWhile_prefix _).eq_of_length whole
      have present := List.takeWhile_eq_self_iff.mp all 0 null
      exact absurd present (by decide)
    have present : ∀ byte ∈ (nameBytes record).takeWhile (· ≠ 0), byte ≠ 0 := fun byte inside => by
      simpa using List.mem_takeWhile_imp inside
    obtain ⟨n, filled⟩ : ∃ n, 8 - ((nameBytes record).takeWhile (· ≠ 0)).length = n + 1 :=
      ⟨7 - ((nameBytes record).takeWhile (· ≠ 0)).length, by omega⟩
    rw [filled, List.replicate_succ', ← List.append_assoc,
      List.rdropWhile_concat_neg _ _ _ (by decide), List.rtakeWhile_concat_neg _ _ _ (by decide),
      List.length_nil, List.replicate_zero, List.append_nil, List.append_assoc,
      ← List.replicate_succ', cString_zeros present, if_neg (Nat.succ_ne_zero n)]
  · have present : ∀ byte ∈ nameBytes record, byte ≠ 0 := fun byte inside zero =>
      null (zero ▸ inside)
    have whole : (nameBytes record).takeWhile (· ≠ 0) = nameBytes record :=
      List.takeWhile_eq_self_iff.mpr (by simpa using present)
    rw [if_neg null, whole, eight, Nat.sub_self, List.replicate_zero, List.append_nil,
      cString_zeros fun byte inside => present byte ((List.rdropWhile_prefix _ _).mem inside)]
    have last : nameBytes record = (List.range 7).map record ++ [record 7] := by
      rw [nameBytes, List.range_succ, List.map_append, List.map_singleton]
    by_cases blank : record 7 = 0x20
    · rw [if_pos (show HasPlace record from .inr blank), if_neg]
      rw [last, List.rtakeWhile_concat_pos _ _ _ (by simpa using blank)]
      simp
    · have full : ¬ HasPlace record := fun place => place.elim null blank
      rw [if_neg full, if_pos]
      rw [last, List.rtakeWhile_concat_neg _ _ _ (by simpa using blank), List.length_nil]

theorem stem_prefix (record : Memory) : stem record <+: nameBytes record := by
  rw [stem]
  split
  · exact List.takeWhile_prefix _
  · exact List.rdropWhile_prefix _ _

theorem mem_nameBytes_zero {record : Memory} :
    0 ∈ nameBytes record ↔ ∃ i < 8, record i = 0 := by
  simp [nameBytes]

/-- Replacing the blanks at the end of a name does not change whether there is place for a NUL. -/
theorem hasPlace_blanksReplaced (record : Memory) :
    HasPlace (blanksReplaced record) ↔ HasPlace record := by
  rw [HasPlace, HasPlace, mem_nameBytes_zero, mem_nameBytes_zero]
  by_cases blank : record 7 = 0x20
  · have replaced : blanksReplaced record 7 = 0 := by
      rw [blanksReplaced, if_pos]
      refine .inl ⟨by decide, fun q after less => ?_⟩
      rw [show q = 7 by omega]
      exact blank
    exact iff_of_true (.inl ⟨7, by decide, replaced⟩) (.inr blank)
  · have same : ∀ i < 8, blanksReplaced record i = record i := by
      intro i inside
      rw [blanksReplaced, if_neg]
      rintro (⟨-, blanks⟩ | ⟨outside, -⟩)
      · exact blank (blanks 7 (by omega) (by decide))
      · omega
    rw [same 7 (by decide)]
    refine or_congr_left ⟨?_, ?_⟩
    · rintro ⟨i, inside, null⟩
      exact ⟨i, inside, (same i inside).symm.trans null⟩
    · rintro ⟨i, inside, null⟩
      exact ⟨i, inside, (same i inside).trans null⟩

end Strings

/-! ## Faithful names -/

/-- The eleven bytes of name and extension, without the blanks at the end of each. -/
def shortName (record : Memory) : List UInt8 := (List.range 11).map (blanksReplaced record)

/-- `vfat_readdir` passes a string for every entry, in the order of the list, and the strings of
entries with different names are different. -/
def FaithfulNames (nodes : List (Node Memory)) (first : Option Nat) (records : List Memory) :
    Prop :=
  ∃ fuel names texts, vfatReaddir nodes fuel first = some (.ok names) ∧
    names.map cString = some [0x2E] :: some [0x2E, 0x2E] :: texts.map some ∧
      List.Forall₂ (fun record text => text <+: nameBytes record) records texts ∧
        ∀ (i j : Nat) (record record' : Memory) (text : List UInt8), records[i]? = some record →
          records[j]? = some record' → texts[i]? = some text → texts[j]? = some text →
            shortName record = shortName record'

section Faithful

variable {nodes : List (Node Memory)} {first : Option Nat} {records : List Memory}

theorem walkList_names (names : List (List UInt8)) (records : List Memory) :
    walkList (fun names record => .inl (names ++ [readdirName record])) id names records =
      names ++ records.map readdirName := by
  induction records generalizing names with
  | nil => exact (List.append_nil names).symm
  | cons record records ih =>
      have later := ih (names ++ [readdirName record])
      rw [List.append_assoc] at later
      exact later

theorem readdir_names (list : Segment nodes first records none) {fuel : Nat}
    (enough : records.length < fuel) : vfatReaddir nodes fuel first =
      some (.ok ([0x2E, 0x00] :: [0x2E, 0x2E, 0x00] :: records.map readdirName)) := by
  rw [vfatReaddir, loop_walk _ _ _ list _ enough, walkList_names]
  rfl

/-- The strings are the stems of the names. -/
theorem FaithfulNames.stems (list : Segment nodes first records none)
    (faithful : FaithfulNames nodes first records) :
    (∀ record ∈ records, HasPlace record) ∧
      ∀ record ∈ records, ∀ record' ∈ records, stem record = stem record' →
        shortName record = shortName record' := by
  obtain ⟨fuel, names, texts, called, strings, -, apart⟩ := faithful
  have same := loop_unique called (readdir_names list (Nat.lt_succ_self _))
  cases same
  rw [List.map_cons, List.map_cons, List.map_map] at strings
  have readable := (List.cons.inj (List.cons.inj strings).2).2
  have text : ∀ (i : Nat) (record : Memory), records[i]? = some record →
      HasPlace record ∧ texts[i]? = some (stem record) := by
    intro i record found
    have string := congrArg (·[i]?) readable
    simp only [List.getElem?_map, found, Option.map_some, Function.comp_apply,
      cString_readdirName] at string
    obtain ⟨text, found', readable⟩ := Option.map_eq_some_iff.mp string.symm
    by_cases place : HasPlace record
    · rw [if_pos place] at readable
      rw [found', Option.some.inj readable]
      exact ⟨place, rfl⟩
    · rw [if_neg place] at readable
      cases readable
  constructor
  · intro record inside
    obtain ⟨i, found⟩ := List.mem_iff_getElem?.mp inside
    exact (text i record found).1
  · intro record inside record' inside' equal
    obtain ⟨i, found⟩ := List.mem_iff_getElem?.mp inside
    obtain ⟨j, found'⟩ := List.mem_iff_getElem?.mp inside'
    refine apart i j record record' (stem record) found found' (text i record found).2 ?_
    rw [equal]
    exact (text j record' found').2

/-- **When the names of a directory are faithful.** Every name has place for a NUL, and the names of
two entries with the same stem are the same. -/
theorem names_iff (list : Segment nodes first records none) : FaithfulNames nodes first records ↔
    (∀ record ∈ records, HasPlace record) ∧
      ∀ record ∈ records, ∀ record' ∈ records, stem record = stem record' →
        shortName record = shortName record' := by
  constructor
  · exact FaithfulNames.stems list
  · rintro ⟨place, apart⟩
    refine ⟨records.length + 1, _, records.map stem, readdir_names list (Nat.lt_succ_self _),
      ?_, ?_, ?_⟩
    · rw [List.map_cons, List.map_cons, List.map_map, List.map_map]
      refine congrArg (some [0x2E] :: some [0x2E, 0x2E] :: ·) (List.map_congr_left ?_)
      intro record inside
      rw [Function.comp_apply, cString_readdirName, if_pos (place record inside)]
      rfl
    · rw [List.forall₂_map_right_iff]
      exact List.forall₂_same.mpr fun record _ => stem_prefix record
    · intro i j record record' text found found' string string'
      rw [List.getElem?_map, found] at string
      rw [List.getElem?_map, found'] at string'
      exact apart record (List.mem_of_getElem? found) record' (List.mem_of_getElem? found')
        (Option.some.inj (string.trans string'.symm))

end Faithful

/-- The record of a file. -/
def sampleRecord (name : List UInt8) : Memory := fill (fun _ => 0) (sampleSlot name 0x20)

/-- A list of two entries. -/
def sampleNodes (first second : Memory) : List (Node Memory) :=
  [⟨some first, some 1⟩, ⟨some second, none⟩]

theorem sampleNodes_list (first second : Memory) :
    Segment (sampleNodes first second) (some 0) [first, second] none :=
  .cons rfl (.cons rfl (.nil none))

theorem names_sample :
    FaithfulNames (sampleNodes (sampleRecord [0x41]) (sampleRecord [0x42])) (some 0)
      [sampleRecord [0x41], sampleRecord [0x42]] :=
  (names_iff (sampleNodes_list _ _)).mpr ⟨by decide, by decide⟩

/-- The names of `README12`, which fills its eight bytes, and of `A.TXT` and `A.BIN`. -/
theorem names_fail :
    ¬ FaithfulNames [⟨some (sampleRecord [0x52, 0x45, 0x41, 0x44, 0x4D, 0x45, 0x31, 0x32]), none⟩]
        (some 0) [sampleRecord [0x52, 0x45, 0x41, 0x44, 0x4D, 0x45, 0x31, 0x32]] ∧
      ¬ FaithfulNames
        (sampleNodes
          (sampleRecord [0x41, 0x20, 0x20, 0x20, 0x20, 0x20, 0x20, 0x20, 0x54, 0x58, 0x54])
          (sampleRecord [0x41, 0x20, 0x20, 0x20, 0x20, 0x20, 0x20, 0x20, 0x42, 0x49, 0x4E]))
        (some 0)
        [sampleRecord [0x41, 0x20, 0x20, 0x20, 0x20, 0x20, 0x20, 0x20, 0x54, 0x58, 0x54],
          sampleRecord [0x41, 0x20, 0x20, 0x20, 0x20, 0x20, 0x20, 0x20, 0x42, 0x49, 0x4E]] := by
  constructor
  · intro faithful
    have place := (FaithfulNames.stems (.cons rfl (.nil none)) faithful).1
    revert place
    decide
  · intro faithful
    have apart := (FaithfulNames.stems (sampleNodes_list _ _) faithful).2
    revert apart
    decide

/-! ## The checksum -/

/-- One round of the loop of `lfn_checksum`. The sum is computed as an `int` and stored as a
`uint8_t`. -/
def lfnRound (sum byte : UInt8) : UInt8 :=
  UInt8.ofNat (((sum.toNat &&& 1) <<< 7) + (sum.toNat >>> 1) + byte.toNat)

/-- The loop, with `i` rounds left and `pFCBName` at `p`. -/
def lfnRounds (name : Memory) : Nat → Nat → UInt8 → UInt8
  | 0, _, sum => sum
  | i + 1, p, sum => lfnRounds name i (p + 1) (lfnRound sum (name p))

/-- `lfn_checksum`. -/
def lfnChecksum (pFCBName : Memory) : UInt8 := lfnRounds pFCBName 11 0 0

section Checksum

variable {sum sum' byte byte' : UInt8} {name name' : Memory}

theorem lfnRound_toNat (sum byte : UInt8) : (lfnRound sum byte).toNat =
    (sum.toNat % 2 * 128 + sum.toNat / 2 + byte.toNat) % 256 := by
  rw [lfnRound, UInt8.toNat_ofNat', Nat.and_one_is_mod, Nat.shiftLeft_eq, Nat.shiftRight_eq_div_pow]

theorem lfnRound_injective_sum (same : lfnRound sum byte = lfnRound sum' byte) : sum = sum' := by
  have rounds := congrArg UInt8.toNat same
  rw [lfnRound_toNat, lfnRound_toNat] at rounds
  have low := sum.toNat_lt
  have low' := sum'.toNat_lt
  have rotated : sum.toNat % 2 * 128 + sum.toNat / 2 = sum'.toNat % 2 * 128 + sum'.toNat / 2 :=
    (Nat.ModEq.add_right_cancel' byte.toNat rounds).eq_of_lt_of_lt (by omega) (by omega)
  apply UInt8.toNat_inj.mp
  omega

theorem lfnRound_injective_byte (same : lfnRound sum byte = lfnRound sum byte') : byte = byte' := by
  have rounds := congrArg UInt8.toNat same
  rw [lfnRound_toNat, lfnRound_toNat] at rounds
  apply UInt8.toNat_inj.mp
  exact (Nat.ModEq.add_left_cancel' _ rounds).eq_of_lt_of_lt byte.toNat_lt byte'.toNat_lt

/-- Take the byte off again and rotate back. -/
theorem lfnRound_surjective (byte : UInt8) : Function.Surjective (lfnRound · byte) := by
  intro result
  have low := result.toNat_lt
  have added := byte.toNat_lt
  obtain ⟨rotated, small, sum⟩ : ∃ rotated < 256, (rotated + byte.toNat) % 256 = result.toNat :=
    ⟨(result.toNat + 256 - byte.toNat) % 256, by omega, by omega⟩
  refine ⟨UInt8.ofNat (rotated % 128 * 2 + rotated / 128), UInt8.toNat_inj.mp ?_⟩
  have fits : rotated % 128 * 2 + rotated / 128 < 256 := by omega
  have back : (rotated % 128 * 2 + rotated / 128) % 2 * 128 +
      (rotated % 128 * 2 + rotated / 128) / 2 = rotated := by omega
  dsimp only
  rw [lfnRound_toNat, UInt8.toNat_ofNat', Nat.mod_eq_of_lt fits, back, sum]

/-- Rounds with the same bytes keep sums apart. -/
theorem lfnRounds_ne (i p : Nat) (same : ∀ q, p ≤ q → q < p + i → name q = name' q)
    (apart : sum ≠ sum') : lfnRounds name i p sum ≠ lfnRounds name' i p sum' := by
  induction i generalizing p sum sum' with
  | zero => exact apart
  | succ i ih =>
      rw [lfnRounds, lfnRounds, same p (Nat.le_refl p) (by omega)]
      refine ih (p + 1) (fun q low high => same q (by omega) (by omega)) fun equal => ?_
      exact apart (lfnRound_injective_sum equal)

/-- A byte that is different makes the sums different. -/
theorem lfnRounds_detect {at' : Nat} (i p : Nat) (low : p ≤ at') (high : at' < p + i)
    (same : ∀ q, p ≤ q → q < p + i → q ≠ at' → name q = name' q) (differ : name at' ≠ name' at') :
    lfnRounds name i p sum ≠ lfnRounds name' i p sum := by
  induction i generalizing p sum with
  | zero => omega
  | succ i ih =>
      rw [lfnRounds, lfnRounds]
      rcases Nat.eq_or_lt_of_le low with rfl | later
      · refine lfnRounds_ne i (p + 1) (fun q after before => ?_) fun equal => ?_
        · exact same q (by omega) (by omega) (by omega)
        · exact differ (lfnRound_injective_byte equal)
      · rw [same p (Nat.le_refl p) (by omega) (by omega)]
        exact ih (p + 1) later (by omega) fun q after before other =>
          same q (by omega) (by omega) other

end Checksum

/-- **The checksum detects every change of a single byte.** Each round is a bijection of the sum and
injective in the byte that is added. -/
theorem lfnChecksum_detects :
    (∀ byte, Function.Bijective (lfnRound · byte)) ∧ (∀ sum, Function.Injective (lfnRound sum)) ∧
      ∀ (name name' : Memory) (p : Nat), p < 11 → name p ≠ name' p →
        (∀ q < 11, q ≠ p → name q = name' q) → lfnChecksum name ≠ lfnChecksum name' := by
  refine ⟨fun byte => ⟨fun _ _ => lfnRound_injective_sum, lfnRound_surjective byte⟩,
    fun sum _ _ => lfnRound_injective_byte, ?_⟩
  intro name name' p inside differ same
  exact lfnRounds_detect 11 0 (Nat.zero_le p) (by omega)
    (fun q _ before other => same q (by omega) other) differ

theorem lfnChecksum_detects_sample :
    lfnChecksum (sampleRecord [0x41]) ≠ lfnChecksum (sampleRecord [0x42]) :=
  lfnChecksum_detects.2.2 (sampleRecord [0x41]) (sampleRecord [0x42]) 0 (by decide) (by decide)
    (by decide)

end OsTasks.Fat
