import OsTasks.Fat.Directory
import OsTasks.Fat.Image

/-!
# The allocator and the listing

What `vfat_read_root_directory` of `vfat.c` does may depend on the heap: the test of the loop reads
records that have been freed, and a short `pread` leaves bytes of a record as `malloc` has returned
them.

`heapIndependent_iff` says when it does not depend on the heap. The loop has to come to an entry
with a blank name, which ends it, and all slots up to this one have to be entries that are on the
device as a whole. Any slot that is skipped makes the listing depend on the allocator, and so does
the end mark of the directory.
-/

set_option autoImplicit false

namespace OsTasks.Fat

open OsTasks.Lib

/-! ## Records and the device -/

/-- The bytes of the device from the slot of a turn on. -/
def deviceSlot (dev : Device) (f : Vfat) (t : Nat) : Memory := fun i =>
  dev.byte ((f.slotOffset t).toNat + i)

/-- The slot is on the device as a whole, and it is an entry. -/
def WholeEntry (dev : Device) (f : Vfat) (t : Nat) : Prop :=
  (f.slotOffset t).toNat + vfatDirentrySize ≤ dev.size ∧ isSkipped (deviceSlot dev f t) = false

/-- The name in the slot is blank. -/
def BlankSlot (dev : Device) (f : Vfat) (t : Nat) : Prop := ∀ i < 8, deviceSlot dev f t i = 0x20

section Records

variable {dev : Device} {f : Vfat} {t : Nat} {mem mem' : Memory}

theorem slotRecord_inside (heap : Heap)
    (fits : (f.slotOffset t).toNat + vfatDirentrySize ≤ dev.size) {i : Nat} (inside : i < 32) :
    slotRecord dev heap f t i = deviceSlot dev f t i :=
  fill_pread fits inside

/-- The last byte of a record that is read behind the end of the device. -/
theorem slotRecord_short (heap : Heap)
    (short : ¬ (f.slotOffset t).toNat + vfatDirentrySize ≤ dev.size) :
    slotRecord dev heap f t 31 = heap.fresh t 31 := by
  have length : (dev.pread vfatDirentrySize (f.slotOffset t).toNat).length ≤ 31 := by
    unfold Device.pread
    rw [if_neg (by omega), List.length_map, List.length_range, Int.toNat_natCast,
      Int.toNat_natCast]
    have size : vfatDirentrySize = 32 := rfl
    omega
  rw [slotRecord, readRecord, fill, List.getD_eq_getElem?_getD, List.getElem?_eq_none length]
  rfl

theorem isSkipped_congr (same : ∀ i < 32, mem i = mem' i) : isSkipped mem = isSkipped mem' := by
  rw [isSkipped, isSkipped, same 0 (by decide), same 11 (by decide)]

theorem trimRecord_congr (same : ∀ i < 32, mem i = mem' i) {i : Nat} (inside : i < 32) :
    trimRecord mem i = trimRecord mem' i := by
  rw [trimRecord_eq, trimRecord_eq, blanksReplaced, blanksReplaced, same i inside]
  refine if_congr (or_congr ?_ ?_) rfl rfl
  · refine and_congr_right fun _ => forall_congr' fun q => ?_
    refine forall_congr' fun _ => forall_congr' fun less => ?_
    rw [same q (by omega)]
  · refine and_congr_right fun _ => and_congr_right fun _ => forall_congr' fun q => ?_
    refine forall_congr' fun _ => forall_congr' fun less => ?_
    rw [same q (by omega)]

theorem load_congr (same : ∀ i < 32, mem i = mem' i) :
    VfatDirentry.load mem = VfatDirentry.load mem' := by
  have bytes16 : ∀ p, p + 1 < 32 → load16 mem p = load16 mem' p := by
    intro p less
    rw [load16, load16, same p (by omega), same (p + 1) less]
  have bytes32 : load32 mem 28 = load32 mem' 28 := by
    rw [load32, load32, same 28 (by decide), same (28 + 1) (by decide), same (28 + 2) (by decide),
      same (28 + 3) (by decide)]
  have name : (List.range 8).map mem = (List.range 8).map mem' := by
    refine List.map_congr_left fun i inside => same i ?_
    have less := List.mem_range.mp inside
    omega
  have ext : ((List.range 3).map fun i => mem (8 + i)) =
      (List.range 3).map fun i => mem' (8 + i) := by
    refine List.map_congr_left fun i inside => same (8 + i) ?_
    have less := List.mem_range.mp inside
    omega
  rw [VfatDirentry.load, VfatDirentry.load, name, ext, same 11 (by decide), bytes16 20 (by decide),
    bytes16 26 (by decide), bytes32]

theorem load32_last {p : Nat} (same : load32 mem p = load32 mem' p) :
    mem (p + 3) = mem' (p + 3) := by
  have bytes := congrArg UInt32.toNat same
  rw [load32, load32, UInt32.toNat_ofNat', UInt32.toNat_ofNat'] at bytes
  have first := (mem p).toNat_lt
  have first' := (mem' p).toNat_lt
  have second := (mem (p + 1)).toNat_lt
  have second' := (mem' (p + 1)).toNat_lt
  have third := (mem (p + 2)).toNat_lt
  have third' := (mem' (p + 2)).toNat_lt
  have last := (mem (p + 3)).toNat_lt
  have last' := (mem' (p + 3)).toNat_lt
  apply UInt8.toNat_inj.mp
  omega

/-- The last byte of a record is part of the size of the file. -/
theorem last_of_load (same : VfatDirentry.load (trimRecord mem) =
    VfatDirentry.load (trimRecord mem')) : mem 31 = mem' 31 := by
  have kept : ∀ record : Memory, trimRecord record 31 = record 31 := by
    intro record
    rw [trimRecord_eq, blanksReplaced, if_neg (by omega)]
  rw [← kept mem, ← kept mem']
  exact load32_last (congrArg VfatDirentry.fileSize same)

end Records

/-! ## Runs with different heaps -/

/-- After any number of turns, the runs with any two heaps have read the same slots and found the
same entries, and both of them or none have been left. -/
def HeapIndependent (dev : Device) (f : Vfat) : Prop :=
  ∀ heap heap' n, turns (rootTurn dev heap) n (RootScan.start f) =
    turns (rootTurn dev heap') n (RootScan.start f)

section Runs

variable {dev : Device} {f : Vfat} {t : Nat}

theorem WholeEntry.isSkipped (whole : WholeEntry dev f t) (heap : Heap) :
    isSkipped (slotRecord dev heap f t) = false := by
  rw [isSkipped_congr fun i => slotRecord_inside heap whole.1]
  exact whole.2

theorem WholeEntry.stops_iff (whole : WholeEntry dev f t) (heap : Heap) :
    Stops dev heap f t ↔ BlankSlot dev f t := by
  rw [Stops, ← slotRecord, testedByte_eq_zero, whole.isSkipped heap, if_neg Bool.false_ne_true]
  refine forall_congr' fun i => forall_congr' fun inside => ?_
  rw [slotRecord_inside heap whole.1 (by omega)]

/-- The entries that a run has found do not depend on the heap. -/
theorem entries_of_whole (heap : Heap) (whole : ∀ u < t, WholeEntry dev f u) :
    (linkedRecords dev heap f t).map VfatDirentry.load =
      (List.range t).map fun u => VfatDirentry.load (trimRecord (deviceSlot dev f u)) := by
  induction t with
  | zero => rfl
  | succ t ih =>
      have last := whole t (Nat.lt_succ_self t)
      have same : VfatDirentry.load (trimRecord (slotRecord dev heap f t)) =
          VfatDirentry.load (trimRecord (deviceSlot dev f t)) :=
        load_congr fun i => trimRecord_congr fun i => slotRecord_inside heap last.1
      rw [linkedRecords_succ, last.isSkipped heap, if_neg Bool.false_ne_true, List.map_append,
        ih fun u less => whole u (by omega), List.range_succ, List.map_append, List.map_singleton,
        List.map_singleton, same]

/-- A run that has only come to whole entries without a blank name goes on. -/
theorem turns_of_whole (heap : Heap) (whole : ∀ u < t, WholeEntry dev f u)
    (named : ∀ u < t, ¬ BlankSlot dev f u) : ∃ s,
      turns (rootTurn dev heap) t (RootScan.start f) = .ok (.inl s) ∧ s.HasRead dev heap f t := by
  refine (rootTurn_numbered dev heap f).turns_on RootScan.start_hasRead fun u less => ?_
  rw [(whole u less).stops_iff heap]
  exact named u less

theorem turns_to_blank (heap : Heap) {n : Nat} (less : t < n)
    (whole : ∀ u < t + 1, WholeEntry dev f u) (named : ∀ u < t, ¬ BlankSlot dev f u)
    (blank : BlankSlot dev f t) : ∃ s,
      turns (rootTurn dev heap) n (RootScan.start f) = .ok (.inr s) ∧
        s.HasRead dev heap f (t + 1) := by
  have before : ∀ u < t, ¬ Stops dev heap f u := by
    intro u early
    rw [(whole u (by omega)).stops_iff heap]
    exact named u early
  have stop : Stops dev heap f t := by
    rw [(whole t (Nat.lt_succ_self t)).stops_iff heap]
    exact blank
  exact (rootTurn_numbered dev heap f).turns_left RootScan.start_hasRead before stop less

/-- The runs with two heaps agree when they have come to whole entries only. -/
theorem RootScan.HasRead.eq_of_whole {heap heap' : Heap} {s s' : RootScan}
    (whole : ∀ u < t, WholeEntry dev f u) (first : s.HasRead dev heap f t)
    (second : s'.HasRead dev heap' f t) : s = s' := by
  rw [first.eq_iff second, entries_of_whole heap whole, entries_of_whole heap' whole]

/-- A heap with the same byte everywhere. -/
def constantHeap (byte : UInt8) : Heap := ⟨fun _ _ => byte, fun _ _ => byte⟩

/-- Two heaps tell a slot that is no whole entry. -/
theorem whole_of_independent (independent : HeapIndependent dev f)
    (whole : ∀ u < t, WholeEntry dev f u) (named : ∀ u < t, ¬ BlankSlot dev f u) :
    WholeEntry dev f t := by
  have next : ∀ heap, ∃ s : RootScan, s.HasRead dev heap f (t + 1) ∧
      (¬ Stops dev heap f t → turns (rootTurn dev heap) (t + 1) (RootScan.start f) = .ok (.inl s)) ∧
        (Stops dev heap f t → turns (rootTurn dev heap) (t + 1) (RootScan.start f) =
          .ok (.inr s)) := by
    intro heap
    refine (rootTurn_numbered dev heap f).turns_next RootScan.start_hasRead fun u less => ?_
    rw [(whole u less).stops_iff heap]
    exact named u less
  obtain ⟨s, read, on, left⟩ := next (constantHeap 0)
  obtain ⟨s', read', on', left'⟩ := next (constantHeap 1)
  have same := independent (constantHeap 0) (constantHeap 1) (t + 1)
  have agree : (Stops dev (constantHeap 0) f t ↔ Stops dev (constantHeap 1) f t) ∧ s = s' := by
    by_cases stops : Stops dev (constantHeap 0) f t
    · by_cases stops' : Stops dev (constantHeap 1) f t
      · rw [left stops, left' stops'] at same
        cases same
        exact ⟨⟨fun _ => stops', fun _ => stops⟩, rfl⟩
      · rw [left stops, on' stops'] at same
        cases same
    · by_cases stops' : Stops dev (constantHeap 1) f t
      · rw [on stops, left' stops'] at same
        cases same
      · rw [on stops, on' stops'] at same
        cases same
        exact ⟨⟨fun stop => absurd stop stops, fun stop => absurd stop stops'⟩, rfl⟩
  obtain ⟨stops_iff, states⟩ := agree
  -- The entries of this turn are the same as well.
  rw [read.eq_iff read', linkedRecords_succ, linkedRecords_succ, List.map_append, List.map_append,
    entries_of_whole _ whole, entries_of_whole _ whole, List.append_cancel_left_eq] at states
  rw [Stops, Stops, ← slotRecord, ← slotRecord, testedByte_eq_zero, testedByte_eq_zero] at stops_iff
  cases skipped : isSkipped (slotRecord dev (constantHeap 0) f t) with
  | true =>
      cases skipped' : isSkipped (slotRecord dev (constantHeap 1) f t) with
      | true =>
          rw [skipped, skipped', if_pos rfl, if_pos rfl] at stops_iff
          exact absurd (stops_iff.mp rfl) (show (1 : UInt8) ≠ 0 by decide)
      | false =>
          rw [skipped, skipped'] at states
          cases states
  | false =>
      cases skipped' : isSkipped (slotRecord dev (constantHeap 1) f t) with
      | true =>
          rw [skipped, skipped'] at states
          cases states
      | false =>
          rw [skipped, skipped'] at states
          have entries := last_of_load (List.cons.inj states).1
          have fits : (f.slotOffset t).toNat + vfatDirentrySize ≤ dev.size := by
            by_contra short
            rw [slotRecord_short _ short, slotRecord_short _ short] at entries
            exact absurd entries (show (0 : UInt8) ≠ 1 by decide)
          refine ⟨fits, ?_⟩
          rw [← isSkipped_congr fun i => slotRecord_inside (constantHeap 0) fits]
          exact skipped

end Runs

/-- **When the listing only depends on the device.** All slots up to the first one with a blank name
are whole entries. -/
theorem heapIndependent_iff (dev : Device) (f : Vfat) : HeapIndependent dev f ↔
    ∀ t, (∀ u < t, ¬ BlankSlot dev f u) → WholeEntry dev f t := by
  constructor
  · intro independent t
    induction t using Nat.strongRecOn with
    | _ t ih =>
        intro named
        exact whole_of_independent independent
          (fun u less => ih u less fun v early => named v (by omega)) named
  · intro whole heap heap' n
    by_cases blank : ∃ u, u < n ∧ BlankSlot dev f u
    · obtain ⟨u, less', blank'⟩ := blank
      obtain ⟨last, le, ends, named⟩ := exists_first blank'
      have less : last < n := Nat.lt_of_le_of_lt le less'
      have wholes : ∀ u < last + 1, WholeEntry dev f u := fun u early =>
        whole u fun v earlier => named v (by omega)
      obtain ⟨s, left, read⟩ := turns_to_blank heap less wholes named ends
      obtain ⟨s', left', read'⟩ := turns_to_blank heap' less wholes named ends
      rw [left, left', read.eq_of_whole wholes read']
    · have named : ∀ u < n, ¬ BlankSlot dev f u := fun u early ends => blank ⟨u, early, ends⟩
      have wholes : ∀ u < n, WholeEntry dev f u := fun u early =>
        whole u fun v earlier => named v (by omega)
      obtain ⟨s, on, read⟩ := turns_of_whole heap wholes named
      obtain ⟨s', on', read'⟩ := turns_of_whole heap' wholes named
      rw [on, on', read.eq_of_whole wholes read']

/-! ## Small root directories -/

section Samples

variable (slots : List (List UInt8)) {t : Nat}

theorem sampleVfat_slotOffset (few : t < 16) :
    (sampleVfat.slotOffset t).toNat = 0xFDC00 + 32 * t := by
  have root : sampleVfat.rootOffset.toNat = 0xFDC00 := by decide
  rw [Vfat.slotOffset, UInt32.toNat_add, root, UInt32.toNat_ofNat']
  omega

theorem sampleRoot_fits (few : t < 16) :
    (sampleVfat.slotOffset t).toNat + vfatDirentrySize ≤ (sampleRoot slots).size := by
  rw [sampleVfat_slotOffset few]
  change 0xFDC00 + 32 * t + 32 ≤ 70632 * 512
  omega

theorem sampleRoot_device {i : Nat} (few : t < 16) (inside : i < 32) :
    deviceSlot (sampleRoot slots) sampleVfat t i = (slots.getD t []).getD i 0 := by
  rw [deviceSlot, sampleVfat_slotOffset few, sampleRoot]
  dsimp only
  rw [if_neg (by omega), show (0xFDC00 + 32 * t + i - 0xFDC00) / 32 = t by omega,
    show (0xFDC00 + 32 * t + i - 0xFDC00) % 32 = i by omega]

end Samples

/-- A file, a deleted entry and another file. -/
def sampleDeleted : List (List UInt8) :=
  [sampleSlot [0x41] 0x20, sampleSlot [0xE5] 0x20, sampleSlot [0x42] 0x20]

/-- The heap decides whether the second file is found. -/
theorem sampleDeleted_depends : Mounted (sampleRoot sampleDeleted) sampleVfat ∧
    ¬ HeapIndependent (sampleRoot sampleDeleted) sampleVfat := by
  refine ⟨sampleRoot_mounted sampleDeleted, fun independent => ?_⟩
  have first : ∀ u < 1, WholeEntry (sampleRoot sampleDeleted) sampleVfat u := by
    intro u less
    obtain rfl : u = 0 := by omega
    refine ⟨sampleRoot_fits sampleDeleted (by decide), isSkipped_eq_false.mpr ?_⟩
    rw [sampleRoot_device sampleDeleted (by decide) (by decide),
      sampleRoot_device sampleDeleted (by decide) (by decide)]
    decide
  have named : ∀ u < 1, ¬ BlankSlot (sampleRoot sampleDeleted) sampleVfat u := by
    intro u less blank
    obtain rfl : u = 0 := by omega
    have byte := blank 0 (by decide)
    rw [sampleRoot_device sampleDeleted (by decide) (by decide)] at byte
    revert byte
    decide
  have second := isSkipped_eq_false.mp (whole_of_independent independent first named).2
  rw [sampleRoot_device sampleDeleted (by decide) (by decide)] at second
  exact second.2.1 rfl

end OsTasks.Fat
