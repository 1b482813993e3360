import OsTasks.Lib.LinkedList
import OsTasks.Fat.Allocator

/-!
# The lists of directory entries

`vfat_read_root_directory` and `vfat_read_directory` of `vfat.c` with the list that they build. The
list has one node more than there are entries while it is built. The first function cuts this
node off in the end (and dereferences `NULL` when there is no entry), the second one does not.

`readRoot_iff` says which list `vfat_read_root_directory` leaves; its entries are the ones of the
list-valued model of the function (`readRoot_refines`). `listing_iff` compares it with the entries
up to the end mark of the directory, and `readers_disagree` the two functions with each other.
-/

set_option autoImplicit false

namespace OsTasks.Fat

open OsTasks.Lib

/-! ## The functions -/

/-- The variables of the loop. A pointer to a node of the list is the number of its allocation. -/
structure ListScan where
  turn : Nat
  direntryOffset : UInt32
  nodes : List (Node Memory)
  old : Option Nat
  current : Nat

section Functions

variable (dev : Device) (heap : Heap) (garbage : Nat → Node Memory)

/-- The state before the loop. `garbage` are the nodes as `malloc` returns them. -/
def ListScan.start (f : Vfat) : ListScan := ⟨0, f.rootOffset, [garbage 0], none, 0⟩

/-- Put a record into the last node and allocate the next one. -/
def ListScan.link (s : ListScan) (record : Memory) : ListScan :=
  let next := s.nodes.length
  { s with
    nodes := s.nodes.set s.current ⟨some record, some next⟩ ++ [garbage next]
    old := some s.current
    current := next }

/-- One turn of the loop, with its test. -/
def listTurn (s : ListScan) : Except DirectoryFault (ListScan ⊕ ListScan) :=
  let record := readRecord dev heap s.turn s.direntryOffset
  let linked := if isSkipped record then s else s.link garbage (trimRecord record)
  let next := { linked with turn := s.turn + 1, direntryOffset := s.direntryOffset + 32 }
  if testedByte heap s.turn record ≠ 0 then .ok (.inl next) else .ok (.inr next)

/-- `root_direntries_list`, with the nodes it leads to. -/
structure DirentriesList where
  nodes : List (Node Memory)
  first : Option Nat

/-- `vfat_read_root_directory`. -/
def Linked.vfatReadRootDirectory (fuel : Nat) (f : Vfat) :
    Option (Except DirectoryFault DirentriesList) :=
  (loop (listTurn dev heap garbage) fuel (ListScan.start garbage f)).map fun result => do
    let s ← result
    match s.old with
    | none => .error .nullDereference
    | some old => .ok ⟨s.nodes.modify old fun node => { node with next := none }, some 0⟩

/-- `vfat_read_directory`. It reads the root directory as well. -/
def Linked.vfatReadDirectory (fuel : Nat) (f : Vfat) :
    Option (Except DirectoryFault DirentriesList) :=
  (loop (listTurn dev heap garbage) fuel (ListScan.start garbage f)).map fun result =>
    result.map fun s => ⟨s.nodes, some 0⟩

end Functions

/-! ## The list -/

/-- The variables of the loop when a turn starts. -/
structure ListScan.AtTurn (dev : Device) (heap : Heap) (garbage : Nat → Node Memory) (f : Vfat)
    (t : Nat) (s : ListScan) : Prop where
  turn : s.turn = t
  offset : s.direntryOffset = f.slotOffset t
  nodes : s.nodes = chained (linkedRecords dev heap f t) 0 ++
    [garbage (linkedRecords dev heap f t).length]
  current : s.current = (linkedRecords dev heap f t).length
  old : s.old = if linkedRecords dev heap f t = [] then none
    else some ((linkedRecords dev heap f t).length - 1)

section Lists

variable {dev : Device} {heap : Heap} {garbage : Nat → Node Memory} {f : Vfat}

theorem ListScan.start_atTurn : (ListScan.start garbage f).AtTurn dev heap garbage f 0 :=
  ⟨rfl, (UInt32.add_zero f.rootOffset).symm, rfl, rfl, rfl⟩

/-- The node of a new entry follows the ones before. -/
theorem ListScan.AtTurn.link {t : Nat} {s : ListScan} (start : s.AtTurn dev heap garbage f t)
    (live : isSkipped (slotRecord dev heap f t) = false) :
    let linked := s.link garbage (trimRecord (slotRecord dev heap f t))
    linked.nodes = chained (linkedRecords dev heap f (t + 1)) 0 ++
        [garbage (linkedRecords dev heap f (t + 1)).length] ∧
      linked.current = (linkedRecords dev heap f (t + 1)).length ∧
      linked.old = some ((linkedRecords dev heap f (t + 1)).length - 1) := by
  have records : linkedRecords dev heap f (t + 1) =
      linkedRecords dev heap f t ++ [trimRecord (slotRecord dev heap f t)] := by
    rw [linkedRecords_succ, live]
    rfl
  have length : s.nodes.length = (linkedRecords dev heap f t).length + 1 := by
    simp [start.nodes]
  rw [records, List.length_append, List.length_singleton]
  refine ⟨?_, length, congrArg some start.current⟩
  change s.nodes.set s.current ⟨some _, some s.nodes.length⟩ ++ [garbage s.nodes.length] = _
  rw [length, start.current, start.nodes]
  exact chained_link _ _ _ _

theorem listTurn_numbered (dev : Device) (heap : Heap) (garbage : Nat → Node Memory) (f : Vfat) :
    Numbered (listTurn dev heap garbage) (ListScan.AtTurn dev heap garbage f)
      (Stops dev heap f) := by
  intro t s start
  have record : readRecord dev heap s.turn s.direntryOffset = slotRecord dev heap f t := by
    rw [start.turn, start.offset]
    rfl
  rw [listTurn, record, Stops, ← slotRecord, start.turn, start.offset]
  refine ⟨_, ?_, fun goesOn => if_pos goesOn, fun stops => if_neg (not_not.mpr stops)⟩
  cases skipped : isSkipped (slotRecord dev heap f t) with
  | true =>
      have records : linkedRecords dev heap f (t + 1) = linkedRecords dev heap f t := by
        rw [linkedRecords_succ, skipped]
        exact List.append_nil _
      constructor
      case turn => rfl
      case offset => exact (slotOffset_succ f t).symm
      case nodes =>
        rw [records]
        exact start.nodes
      case current =>
        rw [records]
        exact start.current
      case old =>
        rw [records]
        exact start.old
  | false =>
      obtain ⟨nodes, current, old⟩ := start.link skipped
      have nonempty : linkedRecords dev heap f (t + 1) ≠ [] := by
        rw [linkedRecords_succ, skipped]
        exact List.append_ne_nil_of_right_ne_nil _ (List.cons_ne_nil _ _)
      constructor
      case turn => rfl
      case offset => exact (slotOffset_succ f t).symm
      case nodes => exact nodes
      case current => exact current
      case old =>
        rw [if_neg nonempty]
        exact old

/-- **The list of `vfat_read_root_directory`.** When the loop is left after turn `last`, the
function leaves the list of the entries up to there, unless there is no entry. -/
theorem readRoot_iff {last : Nat} (before : ∀ t < last, ¬ Stops dev heap f t)
    (stops : Stops dev heap f last) {records : List Memory} :
    (∃ fuel list, Linked.vfatReadRootDirectory dev heap garbage fuel f = some (.ok list) ∧
        Segment list.nodes list.first records none) ↔
      linkedRecords dev heap f (last + 1) = records ∧ records ≠ [] := by
  obtain ⟨enough, final, ended, after⟩ :=
    (listTurn_numbered dev heap garbage f).ends ListScan.start_atTurn before stops
  have old := after.old
  by_cases empty : linkedRecords dev heap f (last + 1) = []
  · rw [if_pos empty] at old
    constructor
    · rintro ⟨fuel, list, returned, -⟩
      have same := loop_map_unique ended returned
      simp only [bind, Except.bind, old] at same
      cases same
    · rintro ⟨rfl, nonempty⟩
      exact absurd empty nonempty
  · rw [if_neg empty] at old
    have list := chained_cut empty [garbage (linkedRecords dev heap f (last + 1)).length]
    rw [← after.nodes] at list
    constructor
    · rintro ⟨fuel, found, returned, segment⟩
      have same := loop_map_unique ended returned
      simp only [bind, Except.bind, old] at same
      cases same
      have records := list.unique segment
      exact ⟨records, records ▸ empty⟩
    · rintro ⟨rfl, nonempty⟩
      refine ⟨enough, ⟨_, some 0⟩, ?_, list⟩
      rw [Linked.vfatReadRootDirectory, ended]
      simp only [Option.map_some, bind, Except.bind, old]
      rfl

/-- The entries of the list are the ones that `vfatReadRootDirectory` returns. -/
theorem readRoot_refines {fuel : Nat} {list : DirentriesList} {records : List Memory}
    (returned : Linked.vfatReadRootDirectory dev heap garbage fuel f = some (.ok list))
    (whole : Segment list.nodes list.first records none) :
    ∃ fuel, vfatReadRootDirectory dev heap fuel f =
      some (.ok (records.map VfatDirentry.load)) := by
  obtain ⟨result, ended, same⟩ := Option.map_eq_some_iff.mp returned
  cases result with
  | error reason => cases same
  | ok final =>
      obtain ⟨last, -, before, stops, -⟩ :=
        (listTurn_numbered dev heap garbage f).left ListScan.start_atTurn ended
      have before' := fun t => before t (Nat.zero_le t)
      obtain ⟨rfl, nonempty⟩ := (readRoot_iff before' stops).mp ⟨fuel, list, returned, whole⟩
      obtain ⟨enough, state, left, -, -, entries⟩ :=
        (rootTurn_numbered dev heap f).ends RootScan.start_hasRead before' stops
      refine ⟨enough, ?_⟩
      rw [vfatReadRootDirectory, left, Option.map_some]
      simp only [bind, Except.bind, entries]
      rw [if_neg (mt List.map_eq_nil_iff.mp nonempty)]

/-- `vfat_read_directory` leaves the same entries in front of a node that has not been filled. -/
theorem readDirectory_segment {fuel : Nat} {list : DirentriesList}
    (returned : Linked.vfatReadDirectory dev heap garbage fuel f = some (.ok list)) :
    ∃ last, (∀ t < last, ¬ Stops dev heap f t) ∧ Stops dev heap f last ∧
      Segment list.nodes list.first (linkedRecords dev heap f (last + 1))
        (some (linkedRecords dev heap f (last + 1)).length) := by
  obtain ⟨result, ended, same⟩ := Option.map_eq_some_iff.mp returned
  cases result with
  | error reason => cases same
  | ok final =>
      cases same
      obtain ⟨last, -, before, stops, after⟩ :=
        (listTurn_numbered dev heap garbage f).left ListScan.start_atTurn ended
      refine ⟨last, fun t => before t (Nat.zero_le t), stops, ?_⟩
      have segment := segment_chained [] (linkedRecords dev heap f (last + 1))
        [garbage (linkedRecords dev heap f (last + 1)).length]
      simp only [List.nil_append, List.length_nil, Nat.zero_add, ← after.nodes] at segment
      exact segment

/-- `vfat_read_directory` returns when a turn stops the loop. -/
theorem readDirectory_returns (stops : ∃ t, Stops dev heap f t) :
    ∃ enough list, ∀ fuel, enough ≤ fuel →
      Linked.vfatReadDirectory dev heap garbage fuel f = some (.ok list) := by
  obtain ⟨t, stop⟩ := stops
  obtain ⟨last, -, stop', before⟩ := exists_first stop
  obtain ⟨enough, final, ended, -⟩ :=
    (listTurn_numbered dev heap garbage f).ends ListScan.start_atTurn before stop'
  refine ⟨enough, ⟨final.nodes, some 0⟩, fun fuel le => ?_⟩
  rw [Linked.vfatReadDirectory, loop_of_le ended le]
  rfl

/-- A list of `vfat_read_directory` that is ended by `NULL` has more entries than the one of
`vfat_read_root_directory`. -/
theorem readDirectory_longer {garbage' : Nat → Node Memory} {fuel : Nat}
    {list list' : DirentriesList} {records records' : List Memory}
    (root : Linked.vfatReadRootDirectory dev heap garbage fuel f = some (.ok list))
    (whole : Segment list.nodes list.first records none)
    (directory : Linked.vfatReadDirectory dev heap garbage' fuel f = some (.ok list'))
    (whole' : Segment list'.nodes list'.first records' none) :
    records.length < records'.length := by
  obtain ⟨last, before, stops, segment⟩ := readDirectory_segment directory
  obtain ⟨rfl, -⟩ := (readRoot_iff before stops).mp ⟨fuel, list, root, whole⟩
  obtain ⟨rest, rfl, ended⟩ := segment.suffix whole'
  cases ended with
  | cons node _ =>
      rw [List.length_append, List.length_cons]
      omega

end Lists

/-! ## Up to the end mark -/

section Listing

variable (dev : Device) (heap : Heap) (garbage : Nat → Node Memory) (f : Vfat)

/-- The first slot that starts with 0. -/
structure FirstEnd (last : Nat) : Prop where
  null : slotRecord dev heap f last 0 = 0x00
  before : ∀ t < last, slotRecord dev heap f t 0 ≠ 0x00

/-- The entries before a slot, as they are to be listed. -/
def listing (last : Nat) : List Memory :=
  (((List.range last).map (slotRecord dev heap f)).filter fun record =>
    record 0 ≠ 0xE5 ∧ record 11 ≠ 0x0F).map blanksReplaced

/-- `vfat_read_root_directory` returns with a list of the entries before a slot. -/
def ListsRoot (last : Nat) : Prop :=
  ∃ fuel list, Linked.vfatReadRootDirectory dev heap garbage fuel f = some (.ok list) ∧
    Segment list.nodes list.first (listing dev heap f last) none

/-- The slot of a turn holds an entry. -/
def IsLive (t : Nat) : Prop := isSkipped (slotRecord dev heap f t) = false

/-- The name in the slot is blank. -/
def IsBlank (t : Nat) : Prop := ∀ i < 8, slotRecord dev heap f t i = 0x20

variable {dev heap f} {last : Nat}

theorem FirstEnd.skipped (first : FirstEnd dev heap f last) :
    isSkipped (slotRecord dev heap f last) = true := by
  rw [isSkipped, first.null]
  rfl

theorem FirstEnd.listing_eq (first : FirstEnd dev heap f last) :
    listing dev heap f last = linkedRecords dev heap f (last + 1) := by
  rw [linkedRecords_succ, if_pos first.skipped, List.append_nil, listing, linkedRecords,
    funext trimRecord_eq]
  congr 1
  refine List.filter_congr fun record inside => ?_
  obtain ⟨t, early, rfl⟩ := List.mem_map.mp inside
  have present := first.before t (List.mem_range.mp early)
  rw [Bool.eq_iff_iff, Bool.not_eq_true', isSkipped_eq_false, decide_eq_true_iff]
  exact ⟨fun live => ⟨present, live⟩, fun live => live.2⟩

theorem FirstEnd.mem_listing (first : FirstEnd dev heap f last) {record : Memory} :
    record ∈ listing dev heap f last ↔
      ∃ t < last, IsLive dev heap f t ∧ blanksReplaced (slotRecord dev heap f t) = record := by
  rw [first.listing_eq, linkedRecords_succ, if_pos first.skipped, List.append_nil, linkedRecords,
    funext trimRecord_eq]
  simp only [List.mem_map, List.mem_filter, List.mem_range, Bool.not_eq_true', IsLive]
  constructor
  · rintro ⟨_, ⟨⟨t, early, rfl⟩, live⟩, listed⟩
    exact ⟨t, early, live, listed⟩
  · rintro ⟨t, early, live, listed⟩
    exact ⟨_, ⟨⟨t, early, rfl⟩, live⟩, listed⟩

/-- When freed records keep their bytes, the loop is left at the end mark and before it only at an
entry with a blank name. -/
theorem FirstEnd.stops_iff (first : FirstEnd dev heap f last)
    (kept : ∀ turn byte, heap.freed turn byte = byte) {t : Nat} (early : t < last) :
    Stops dev heap f t ↔ IsLive dev heap f t ∧ IsBlank dev heap f t := by
  rw [Stops, ← slotRecord, testedByte_eq_zero, IsLive, IsBlank, kept]
  cases isSkipped (slotRecord dev heap f t) with
  | true => simpa using first.before t early
  | false => simp

theorem FirstEnd.stops (first : FirstEnd dev heap f last)
    (kept : ∀ turn byte, heap.freed turn byte = byte) : Stops dev heap f last := by
  rw [Stops, ← slotRecord, testedByte_eq_zero, if_pos first.skipped, kept]
  exact first.null

theorem linkedRecords_eq_nil {t : Nat} :
    linkedRecords dev heap f t = [] ↔ ∀ u < t, isSkipped (slotRecord dev heap f u) = true := by
  obtain ⟨more, split, none⟩ := linkedRecords_later dev heap f (Nat.zero_le t)
  rw [split, show linkedRecords dev heap f 0 = [] from rfl, List.nil_append, none]
  exact ⟨fun all u => all u (Nat.zero_le u), fun all u _ => all u⟩

/-- **The listing of the root directory.** The list is the one of the entries up to the end mark
when there is an entry, and when no entry with a blank name is followed by another one. -/
theorem listing_iff (garbage : Nat → Node Memory)
    (kept : ∀ turn byte, heap.freed turn byte = byte) (first : FirstEnd dev heap f last) :
    ListsRoot dev heap garbage f last ↔
      (∃ t < last, IsLive dev heap f t) ∧
        ∀ t u, t < u → u < last → IsLive dev heap f t → IsLive dev heap f u →
          ¬ IsBlank dev heap f t := by
  -- The turn after which the loop is left.
  obtain ⟨stop, le, stops, before⟩ := exists_first (first.stops kept)
  have entries : linkedRecords dev heap f (last + 1) ≠ [] ↔ ∃ t < last, IsLive dev heap f t := by
    rw [Ne, linkedRecords_eq_nil]
    constructor
    · intro some
      by_contra none
      refine some fun t early => ?_
      rcases Nat.eq_or_lt_of_le (Nat.le_of_lt_succ early) with rfl | less
      · exact first.skipped
      · by_contra live
        exact none ⟨t, less, Bool.eq_false_iff.mpr live⟩
    · rintro ⟨t, less, live⟩ all
      exact Bool.false_ne_true (live.symm.trans (all t (by omega)))
  have complete : linkedRecords dev heap f (stop + 1) = linkedRecords dev heap f (last + 1) ↔
      ∀ t u, t < u → u < last → IsLive dev heap f t → IsLive dev heap f u →
        ¬ IsBlank dev heap f t := by
    obtain ⟨more, split, none_more⟩ := linkedRecords_later dev heap f (Nat.succ_le_succ le)
    rw [split, List.self_eq_append_right, none_more]
    constructor
    · intro skipped t u less early live live' blank
      have late : stop ≤ t := by
        by_contra early'
        exact before t (by omega) ((first.stops_iff kept (by omega)).mpr ⟨live, blank⟩)
      exact Bool.false_ne_true (live'.symm.trans (skipped u (by omega) (by omega)))
    · intro alone u late early
      rcases Nat.eq_or_lt_of_le (Nat.le_of_lt_succ early) with rfl | less
      · exact first.skipped
      · by_contra live
        obtain ⟨live', blank⟩ := (first.stops_iff kept (by omega)).mp stops
        exact alone stop u late less live' (Bool.eq_false_iff.mpr live) blank
  rw [ListsRoot, readRoot_iff before stops, first.listing_eq, complete, entries]
  exact and_comm

end Listing

/-! ## Small root directories -/

section Samples

variable (slots : List (List UInt8)) (heap : Heap) {t : Nat}

theorem sampleRoot_record {i : Nat} (few : t < 16) (inside : i < 32) :
    slotRecord (sampleRoot slots) heap sampleVfat t i = (slots.getD t []).getD i 0 := by
  rw [slotRecord_inside heap (sampleRoot_fits slots few) inside,
    sampleRoot_device slots few inside]

theorem sampleRoot_isSkipped (few : t < 16) :
    isSkipped (slotRecord (sampleRoot slots) heap sampleVfat t) =
      isSkipped fun i => (slots.getD t []).getD i 0 := by
  rw [isSkipped, sampleRoot_record slots heap few (by decide),
    sampleRoot_record slots heap few (by decide)]
  rfl

/-- The slots of the list end the directory. -/
theorem sampleRoot_firstEnd (few : slots.length < 16)
    (present : ∀ slot ∈ slots, slot.getD 0 0 ≠ 0x00) :
    FirstEnd (sampleRoot slots) heap sampleVfat slots.length where
  null := by
    rw [sampleRoot_record slots heap few (by decide), @List.getD_eq_getElem?_getD _ slots,
      List.getElem?_eq_none (Nat.le_refl _)]
    rfl
  before t early := by
    rw [sampleRoot_record slots heap (by omega) (by decide), @List.getD_eq_getElem?_getD _ slots,
      List.getElem?_eq_getElem early]
    exact present _ (List.getElem_mem early)

end Samples

/-- A deleted entry and two files. -/
def sampleFiles : List (List UInt8) :=
  [sampleSlot [0xE5] 0x20, sampleSlot [0x41] 0x20, sampleSlot [0x42] 0x20]

theorem sampleFiles_firstEnd : FirstEnd (sampleRoot sampleFiles) keepingHeap sampleVfat 3 :=
  sampleRoot_firstEnd sampleFiles keepingHeap (by decide) (by decide)

theorem sampleFiles_isLive : IsLive (sampleRoot sampleFiles) keepingHeap sampleVfat 1 :=
  (sampleRoot_isSkipped sampleFiles keepingHeap (by decide)).trans (by decide)

theorem listing_sampleFiles : FirstEnd (sampleRoot sampleFiles) keepingHeap sampleVfat 3 ∧
    ListsRoot (sampleRoot sampleFiles) keepingHeap (fun _ => ⟨none, none⟩) sampleVfat 3 := by
  refine ⟨sampleFiles_firstEnd, (listing_iff _ (fun _ _ => rfl) sampleFiles_firstEnd).mpr
    ⟨⟨1, by decide, sampleFiles_isLive⟩, ?_⟩⟩
  intro t u less early _ _ blank
  have named : ∀ t < 3, (sampleFiles.getD t []).getD 0 0 ≠ 0x20 := by decide
  apply named t (by omega)
  rw [← sampleRoot_record sampleFiles keepingHeap (by omega) (by decide)]
  exact blank 0 (by decide)

/-- An entry with a blank name and a file. -/
def sampleBlank : List (List UInt8) := [sampleSlot [0x20] 0x20, sampleSlot [0x41] 0x20]

/-- An empty root directory is not listed, and neither is what follows a blank name. -/
theorem listing_fails :
    (Mounted (sampleRoot []) sampleVfat ∧ FirstEnd (sampleRoot []) keepingHeap sampleVfat 0 ∧
      ¬ ListsRoot (sampleRoot []) keepingHeap (fun _ => ⟨none, none⟩) sampleVfat 0) ∧
    Mounted (sampleRoot sampleBlank) sampleVfat ∧
      FirstEnd (sampleRoot sampleBlank) keepingHeap sampleVfat 2 ∧
      ¬ ListsRoot (sampleRoot sampleBlank) keepingHeap (fun _ => ⟨none, none⟩) sampleVfat 2 := by
  constructor
  · have first : FirstEnd (sampleRoot []) keepingHeap sampleVfat 0 :=
      sampleRoot_firstEnd [] keepingHeap (by decide) nofun
    refine ⟨sampleRoot_mounted [], first, fun lists => ?_⟩
    have listed := (readRoot_iff (by omega) (first.stops fun _ _ => rfl)).mp lists
    exact listed.2 rfl
  · have first : FirstEnd (sampleRoot sampleBlank) keepingHeap sampleVfat 2 :=
      sampleRoot_firstEnd sampleBlank keepingHeap (by decide) (by decide)
    have blank : Stops (sampleRoot sampleBlank) keepingHeap sampleVfat 0 := by
      rw [first.stops_iff (fun _ _ => rfl) (by decide)]
      refine ⟨(sampleRoot_isSkipped sampleBlank keepingHeap (by decide)).trans (by decide), ?_⟩
      intro i less
      rw [sampleRoot_record sampleBlank keepingHeap (by decide) (by omega)]
      revert i
      decide
    refine ⟨sampleRoot_mounted sampleBlank, first, fun lists => ?_⟩
    obtain ⟨same, -⟩ := (readRoot_iff (by omega) blank).mp lists
    obtain ⟨more, split, none_more⟩ := linkedRecords_later (sampleRoot sampleBlank) keepingHeap
      sampleVfat (show 0 + 1 ≤ 2 + 1 by decide)
    rw [first.listing_eq, split, List.self_eq_append_right, none_more] at same
    have skipped := same 1 (by decide) (by decide)
    rw [sampleRoot_isSkipped sampleBlank keepingHeap (by decide)] at skipped
    revert skipped
    decide

/-! ## The two functions -/

/-- The lists of the two functions have the same entries and are ended by `NULL`. -/
def ReadersAgree (dev : Device) (heap : Heap) (garbage garbage' : Nat → Node Memory) (f : Vfat) :
    Prop :=
  ∃ fuel list list' records,
    Linked.vfatReadRootDirectory dev heap garbage fuel f = some (.ok list) ∧
      Linked.vfatReadDirectory dev heap garbage' fuel f = some (.ok list') ∧
        Segment list.nodes list.first records none ∧ Segment list'.nodes list'.first records none

/-- **The list of `vfat_read_directory` is never the one of `vfat_read_root_directory`.** A list
that is ended by `NULL` has a node more than there are entries. -/
theorem readers_disagree (dev : Device) (heap : Heap) (garbage garbage' : Nat → Node Memory)
    (f : Vfat) : ¬ ReadersAgree dev heap garbage garbage' f := by
  rintro ⟨fuel, list, list', records, root, directory, whole, whole'⟩
  exact Nat.lt_irrefl _ (readDirectory_longer root whole directory whole')

theorem sampleFiles_disagree : Mounted (sampleRoot sampleFiles) sampleVfat ∧
    IsLive (sampleRoot sampleFiles) keepingHeap sampleVfat 1 ∧
      FirstEnd (sampleRoot sampleFiles) keepingHeap sampleVfat 3 ∧
        ¬ ReadersAgree (sampleRoot sampleFiles) keepingHeap (fun _ => ⟨none, none⟩)
          (fun _ => ⟨none, none⟩) sampleVfat := by
  refine ⟨sampleRoot_mounted sampleFiles, sampleFiles_isLive, sampleFiles_firstEnd, ?_⟩
  rintro ⟨fuel, list, list', records, root, directory, whole, whole'⟩
  exact Nat.lt_irrefl _ (readDirectory_longer root whole directory whole')

end OsTasks.Fat
