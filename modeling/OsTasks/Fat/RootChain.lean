import OsTasks.Fat.Directory
import OsTasks.Fat.Image

/-!
# The root directory along its chain

The root directory of a FAT32 volume is a chain of clusters as every directory, and its slots are
the slots of these clusters in the order of the chain, up to the first one that starts with 0
(`RootImage.wanted`).

`vfat_read_root_directory` never looks at the FAT. It adds 32 to the offset after every slot, and
so `readsChain_iff` needs clusters that follow each other on the device as well, as far as the
slots are wanted. The test of the loop has to stop it at the last of these slots and not before;
for the slots that are skipped, the test reads a freed record.
-/

set_option autoImplicit false

namespace OsTasks.Fat

open OsTasks.Lib

/-! ## Blocks of a list -/

/-- An element of a list of blocks that all have the same length. -/
theorem getElem?_flatMap_range {α β : Type} {k : Nat} (positive : 0 < k) (g : α → Nat → β)
    (l : List α) (i : Nat) : (l.flatMap fun a => (List.range k).map (g a))[i]? =
      l[i / k]?.map fun a => g a (i % k) := by
  induction l generalizing i with
  | nil => rfl
  | cons a rest ih =>
      rw [List.flatMap_cons, List.getElem?_append, List.length_map, List.length_range]
      by_cases first : i < k
      · rw [if_pos first, List.getElem?_map, List.getElem?_range first, Nat.div_eq_of_lt first,
          Nat.mod_eq_of_lt first]
        rfl
      · have block : i / k = (i - k) / k + 1 := by
          rw [← Nat.add_div_right _ positive, Nat.sub_add_cancel (by omega)]
        have place : (i - k) % k = i % k := (Nat.mod_eq_sub_mod (by omega)).symm
        rw [if_neg first, ih, block, place]
        rfl

/-! ## Slots -/

/-- A well-formed volume with its root directory: a chain of clusters of the volume that starts at
`BPB_RootClus` and has an end. The sectors hold whole slots. -/
structure RootImage where
  dev : Device
  f : Vfat
  clusters : List UInt32
  volume : Volume dev f
  aligned : 32 ∣ f.bootSector.bytsPerSec.toNat
  linked : Chain dev f f.bootSector.rootClus clusters
  root : clusters ≠ []

/-- The slots up to the first one that starts with 0. -/
def upToEnd (dev : Device) : List Nat → List Nat
  | [] => []
  | slot :: rest => if dev.byte slot = vfatDirnameNull then [slot] else slot :: upToEnd dev rest

theorem upToEnd_prefix (dev : Device) (slots : List Nat) : upToEnd dev slots <+: slots := by
  induction slots with
  | nil => exact List.prefix_rfl
  | cons slot rest ih =>
      rw [upToEnd]
      split
      · exact (List.prefix_cons_inj slot).mpr List.nil_prefix
      · exact (List.prefix_cons_inj slot).mpr ih

theorem upToEnd_ne_nil {dev : Device} {slots : List Nat} (some : slots ≠ []) :
    upToEnd dev slots ≠ [] := by
  cases slots with
  | nil => exact absurd rfl some
  | cons slot rest =>
      rw [upToEnd]
      split <;> exact List.cons_ne_nil _ _

/-- The test of the loop reads 0 after a slot. A skipped slot is freed before the test, and an
entry is trimmed, so that the test finds 0 in a name of blanks. -/
def SlotEnds (dev : Device) (heap : Heap) (turn slot : Nat) : Prop :=
  if isSkipped fun i => dev.byte (slot + i) then heap.freed turn (dev.byte slot) = 0
  else ∀ i < 8, dev.byte (slot + i) = 0x20

instance (dev : Device) (heap : Heap) (turn slot : Nat) : Decidable (SlotEnds dev heap turn slot) :=
  inferInstanceAs (Decidable (if isSkipped fun i => dev.byte (slot + i) then
    heap.freed turn (dev.byte slot) = 0 else ∀ i < 8, dev.byte (slot + i) = 0x20))

namespace RootImage

variable (image : RootImage)

/-- The number of slots of a cluster. -/
def perCluster : Nat := image.f.clusterSize / 32

/-- The slots of the root directory, in the order of the chain. -/
def slots : List Nat :=
  image.clusters.flatMap fun n =>
    (List.range image.perCluster).map fun i => image.f.clusterAddress n + 32 * i

/-- The slots that are to be read. -/
def wanted : List Nat := upToEnd image.dev image.slots

/-- `vfat_read_root_directory` reads the slots along the chain, up to the first one that starts
with 0 or to the end of the chain, and no other ones. -/
def ReadsChain (heap : Heap) : Prop :=
  ∃ slots, Examines image.dev heap image.f slots ∧ slots.map UInt32.toNat = image.wanted

/-- The clusters of the wanted slots have consecutive numbers. -/
def Consecutive : Prop :=
  ∀ i n, i * image.perCluster < image.wanted.length → image.clusters[i]? = some n →
    n.toNat = image.f.bootSector.rootClus.toNat + i

/-- The wanted slots would end below 4 GiB if they followed each other. -/
def Low : Prop :=
  image.f.clusterAddress image.f.bootSector.rootClus + 32 * image.wanted.length ≤ 2 ^ 32

/-- The test stops the loop at the last of the wanted slots, and not before. -/
def StopsAtLast (heap : Heap) : Prop :=
  ∀ turn slot, image.wanted[turn]? = some slot →
    (SlotEnds image.dev heap turn slot ↔ turn + 1 = image.wanted.length)

end RootImage

/-! ## The test of the loop -/

/-- What the test reads after a slot of the device. -/
theorem testedByte_iff {dev : Device} {heap : Heap} {turn : Nat} {offset : UInt32}
    (inside : offset.toNat + 32 ≤ dev.size) :
    testedByte heap turn (readRecord dev heap turn offset) = 0 ↔
      SlotEnds dev heap turn offset.toNat := by
  have byte : ∀ i < 32, readRecord dev heap turn offset i = dev.byte (offset.toNat + i) :=
    fun i within => fill_pread inside within
  have skipped : isSkipped (readRecord dev heap turn offset) =
      isSkipped fun i => dev.byte (offset.toNat + i) := by
    rw [isSkipped, byte 0 (by decide), byte 11 (by decide)]
    rfl
  have blank : (∀ i < 8, readRecord dev heap turn offset i = 0x20) ↔
      ∀ i < 8, dev.byte (offset.toNat + i) = 0x20 := by
    constructor
    · intro blank i short
      rw [← byte i (by omega)]
      exact blank i short
    · intro blank i short
      rw [byte i (by omega)]
      exact blank i short
  rw [testedByte_eq_zero, SlotEnds, skipped, byte 0 (by decide), blank]
  rfl

/-! ## Addresses of slots -/

namespace RootImage

variable {image : RootImage} {heap : Heap}

theorem aligned_clusterSize : 32 ∣ image.f.clusterSize := Dvd.dvd.mul_right image.aligned _

theorem perCluster_mul : 32 * image.perCluster = image.f.clusterSize :=
  Nat.mul_div_cancel' aligned_clusterSize

theorem perCluster_pos : 0 < image.perCluster := by
  have whole := image.perCluster_mul
  have some := image.volume.clusterSize_pos
  omega

theorem aligned_clusterAddress (n : UInt32) : 32 ∣ image.f.clusterAddress n :=
  Dvd.dvd.mul_left image.aligned _

/-- No cluster is at the beginning of the device. -/
theorem clusterAddress_pos (n : UInt32) : 0 < image.f.clusterAddress n := by
  have geometry := image.volume.mounted.geometry
  have fits := image.volume.fits
  have entries := image.volume.entries
  have sector : 0 < image.f.bootSector.bytsPerSec.toNat :=
    Nat.pos_of_ne_zero fun zero => geometry.bytsPerSec (UInt16.toNat_inj.mp zero)
  have fat : 0 < image.f.fatSz.toNat := by
    refine Nat.pos_of_ne_zero fun zero => ?_
    rw [zero, Nat.zero_mul] at entries
    omega
  have tables : 0 < image.f.bootSector.numFATs.toNat * image.f.bootSector.fatSz.toNat := by
    rw [← geometry.fatSz]
    exact Nat.mul_pos image.volume.fats fat
  have first : 0 < image.f.firstDataSector.toNat := by
    rw [geometry.firstDataSector, VfatSuper.overhead_of_fits fits, VfatSuper.overheadNat]
    omega
  exact Nat.mul_pos (by omega) sector

/-- The address of a cluster grows with its number. -/
theorem clusterAddress_add (image : RootImage) {m n : UInt32} (data : 2 ≤ m) (data' : 2 ≤ n)
    {i : Nat} :
    image.f.clusterAddress n = image.f.clusterAddress m + 32 * (i * image.perCluster) ↔
      n.toNat = m.toNat + i := by
  have low : 2 ≤ m.toNat := data
  have low' : 2 ≤ n.toNat := data'
  have positive := image.volume.clusterSize_pos
  have distance : 32 * (i * image.perCluster) = i * image.f.clusterSize := by
    rw [← perCluster_mul]
    ring
  have address : ∀ c : UInt32, image.f.clusterAddress c =
      image.f.firstDataSector.toNat * image.f.bootSector.bytsPerSec.toNat +
        (c.toNat - 2) * image.f.clusterSize := by
    intro c
    rw [Vfat.clusterAddress, Vfat.clusterSize]
    ring
  rw [distance, address, address, Nat.add_assoc, ← Nat.add_mul, Nat.add_left_cancel_iff,
    Nat.mul_right_cancel_iff positive]
  omega

/-- The first of the clusters. -/
theorem clusters_zero : image.clusters[0]? = some image.f.bootSector.rootClus := by
  have linked := image.linked
  cases clusters : image.clusters with
  | nil => exact absurd clusters image.root
  | cons first rest =>
      rw [clusters] at linked
      rw [linked.1]
      rfl

theorem chain_isCluster {dev : Device} {f : Vfat} {first n : UInt32} {clusters : List UInt32}
    (linked : Chain dev f first clusters) (member : n ∈ clusters) : f.IsCluster n := by
  induction clusters generalizing first with
  | nil => cases member
  | cons cluster rest ih =>
      obtain ⟨-, isCluster, linked'⟩ := linked
      cases member with
      | head => exact isCluster
      | tail _ later => exact ih linked' later

theorem rootClus_cluster : image.f.IsCluster image.f.bootSector.rootClus :=
  chain_isCluster image.linked (List.mem_of_getElem? image.clusters_zero)

theorem slots_getElem? (i : Nat) : image.slots[i]? =
    image.clusters[i / image.perCluster]?.map fun n =>
      image.f.clusterAddress n + 32 * (i % image.perCluster) :=
  getElem?_flatMap_range image.perCluster_pos _ _ i

theorem wanted_getElem? {i : Nat} (inside : i < image.wanted.length) :
    image.wanted[i]? = image.slots[i]? := by
  obtain ⟨rest, whole⟩ := upToEnd_prefix image.dev image.slots
  conv_rhs => rw [← whole]
  exact (List.getElem?_append_left inside).symm

theorem wanted_ne_nil : image.wanted ≠ [] := by
  refine upToEnd_ne_nil fun none => ?_
  have first := image.slots_getElem? 0
  rw [none, Nat.zero_div, image.clusters_zero] at first
  cases first

/-- Where a wanted slot is. -/
theorem wanted_place {i : Nat} (inside : i < image.wanted.length) :
    ∃ n, image.clusters[i / image.perCluster]? = some n ∧ image.f.IsCluster n ∧
      image.wanted[i]? = some (image.f.clusterAddress n + 32 * (i % image.perCluster)) := by
  have slot := (wanted_getElem? inside).symm.trans (List.getElem?_eq_getElem inside)
  rw [slots_getElem?] at slot
  obtain ⟨n, cluster, address⟩ := Option.map_eq_some_iff.mp slot
  refine ⟨n, cluster, chain_isCluster image.linked (List.mem_of_getElem? cluster), ?_⟩
  rw [address]
  exact List.getElem?_eq_getElem inside

/-- The wanted slots are on the device. -/
theorem wanted_inside {i slot : Nat} (isSlot : image.wanted[i]? = some slot) :
    slot + 32 ≤ image.dev.size := by
  obtain ⟨inside, -⟩ := List.getElem?_eq_some_iff.mp isSlot
  obtain ⟨n, -, cluster, place⟩ := wanted_place inside
  have whole := image.perCluster_mul
  have less := Nat.mod_lt i image.perCluster_pos
  have end' := image.volume.cluster_inside cluster
  cases isSlot.symm.trans place
  omega

/-- The code computes the offset of a slot modulo 2^32. -/
theorem slotOffset_toNat (turn : Nat) : (image.f.slotOffset turn).toNat =
    (image.f.clusterAddress image.f.bootSector.rootClus + 32 * turn) % 2 ^ 32 := by
  rw [Vfat.slotOffset, UInt32.toNat_add, rootOffset_eq,
    dataStart_toNat image.f image.rootClus_cluster.1, UInt32.toNat_ofNat', Nat.mod_add_mod,
    Nat.add_mod_mod]

/-- The wanted slots are where the code looks for them. -/
def Placed (image : RootImage) : Prop :=
  ∀ i < image.wanted.length, image.wanted[i]? = some (image.f.slotOffset i).toNat

/-- The offset does not wrap: a slot after that would be at the beginning of the device, where no
cluster is. -/
theorem Placed.low (placed : image.Placed) {i : Nat} (inside : i < image.wanted.length) :
    image.f.clusterAddress image.f.bootSector.rootClus + 32 * i < 2 ^ 32 := by
  induction i with
  | zero =>
      obtain ⟨n, cluster, -, place⟩ := image.wanted_place inside
      have slot := place.symm.trans (placed 0 inside)
      rw [Nat.zero_div, image.clusters_zero] at cluster
      have small := (image.f.slotOffset 0).toNat_lt
      rw [← Option.some.inj slot, Nat.zero_mod, ← Option.some.inj cluster] at small
      exact small
  | succ i ih =>
      have before := ih (by omega)
      obtain ⟨n, -, -, place⟩ := image.wanted_place inside
      have slot := Option.some.inj (place.symm.trans (placed (i + 1) inside))
      rw [slotOffset_toNat] at slot
      have address := image.clusterAddress_pos n
      obtain ⟨units, multiple⟩ := image.aligned_clusterAddress image.f.bootSector.rootClus
      omega

/-- The wanted slots are where the code looks for them when and only when their clusters follow
each other, below 4 GiB. -/
theorem placed_iff : image.Placed ↔ image.Consecutive ∧ image.Low := by
  have positive := image.perCluster_pos
  have root := image.rootClus_cluster
  have nonempty : 0 < image.wanted.length := List.length_pos_iff.mpr image.wanted_ne_nil
  constructor
  · intro placed
    constructor
    · intro i n inside cluster
      obtain ⟨m, cluster', isCluster, place⟩ := image.wanted_place inside
      rw [Nat.mul_div_cancel _ positive] at cluster'
      cases cluster.symm.trans cluster'
      have slot := Option.some.inj (place.symm.trans (placed _ inside))
      rw [slotOffset_toNat, Nat.mod_eq_of_lt (placed.low inside), Nat.mul_mod_left] at slot
      exact (image.clusterAddress_add root.1 isCluster.1).mp slot
    · have last := placed.low (show image.wanted.length - 1 < image.wanted.length by omega)
      obtain ⟨units, multiple⟩ := image.aligned_clusterAddress image.f.bootSector.rootClus
      rw [Low]
      omega
  · rintro ⟨consecutive, low⟩ i inside
    obtain ⟨n, cluster, isCluster, place⟩ := image.wanted_place inside
    have block : i / image.perCluster * image.perCluster ≤ i := Nat.div_mul_le_self _ _
    have number := consecutive _ n (by omega) cluster
    have address := (image.clusterAddress_add root.1 isCluster.1).mpr number
    have whole : image.perCluster * (i / image.perCluster) + i % image.perCluster = i :=
      Nat.div_add_mod _ _
    have order : i / image.perCluster * image.perCluster =
      image.perCluster * (i / image.perCluster) := Nat.mul_comm _ _
    rw [Low] at low
    have below : image.f.clusterAddress image.f.bootSector.rootClus + 32 * i < 2 ^ 32 := by omega
    rw [place, slotOffset_toNat, Nat.mod_eq_of_lt below, address]
    congr 1
    omega

/-- **The root directory along its chain.** The slots of the chain are read, up to the first one
that starts with 0, when and only when their clusters have consecutive numbers and are below
4 GiB, and the test stops the loop at the last of the slots. -/
theorem readsChain_iff (image : RootImage) (heap : Heap) : image.ReadsChain heap ↔
    image.Consecutive ∧ image.Low ∧ image.StopsAtLast heap := by
  have nonempty : 0 < image.wanted.length := List.length_pos_iff.mpr image.wanted_ne_nil
  have tested : ∀ turn slot, image.wanted[turn]? = some slot →
      slot = (image.f.slotOffset turn).toNat →
        (Stops image.dev heap image.f turn ↔ SlotEnds image.dev heap turn slot) := by
    rintro turn slot isSlot rfl
    exact testedByte_iff (image.wanted_inside isSlot)
  rw [← and_assoc, ← placed_iff]
  constructor
  · rintro ⟨slots, examines, same⟩
    obtain ⟨last, before, stops, rfl⟩ := examines_iff.mp examines
    have length : last + 1 = image.wanted.length := by
      rw [← same, List.length_map, List.length_map, List.length_range]
    have placed : image.Placed := by
      intro i inside
      rw [← same, List.getElem?_map, List.getElem?_map, List.getElem?_range (by omega)]
      rfl
    refine ⟨placed, fun turn slot isSlot => ?_⟩
    obtain ⟨inside, -⟩ := List.getElem?_eq_some_iff.mp isSlot
    have address := Option.some.inj (isSlot.symm.trans (placed turn inside))
    rw [← tested turn slot isSlot address]
    constructor
    · intro now
      by_contra notLast
      exact before turn (by omega) now
    · intro isLast
      rw [show turn = last by omega]
      exact stops
  · rintro ⟨placed, stopsAtLast⟩
    have stops : ∀ turn < image.wanted.length,
        (Stops image.dev heap image.f turn ↔ turn + 1 = image.wanted.length) := by
      intro turn inside
      rw [tested turn _ (placed turn inside) rfl]
      exact stopsAtLast turn _ (placed turn inside)
    refine ⟨_, examines_iff.mpr ⟨image.wanted.length - 1, fun turn early now => ?_,
      (stops _ (by omega)).mpr (by omega), rfl⟩, ?_⟩
    · have isLast := (stops turn (by omega)).mp now
      omega
    · refine List.ext_getElem? fun i => ?_
      rw [List.map_map, List.getElem?_map, show image.wanted.length - 1 + 1 = image.wanted.length by
        omega]
      by_cases inside : i < image.wanted.length
      · rw [List.getElem?_range inside, placed i inside]
        rfl
      · rw [List.getElem?_eq_none (by rw [List.length_range]; omega),
          List.getElem?_eq_none (by omega)]
        rfl

end RootImage

/-! ## A root directory in one piece -/

/-- The volume of the small image with a root directory in the clusters 1400 and 1401: the FAT
links them, all 16 slots of the first one are entries, and the second one starts with the end of
the directory. -/
def straightDevice : Device where
  size := sampleDevice.size
  byte p :=
    if 0xFDC00 ≤ p ∧ p < 0xFDE00 then
      if p % 32 < 11 then 0x41 else if p % 32 = 11 then 0x20 else 0
    else (([(21984, 0x79), (21985, 0x05), (21988, 0xFF), (21989, 0xFF), (21990, 0xFF),
      (21991, 0x0F)] ++ sampleBytes).lookup p).getD 0

theorem straightVolume : Volume straightDevice sampleVfat where
  mounted := sampleVfat_mounted_of (by decide +kernel)
  sectors := by decide
  fats := by decide
  consistent := by decide
  entries := by decide
  numbers := by decide
  complete := by decide

/-- A root directory in the clusters 1400 and 1401. -/
def straightRoot : RootImage where
  dev := straightDevice
  f := sampleVfat
  clusters := [1400, 1401]
  volume := straightVolume
  aligned := by decide
  linked := ⟨by decide, ⟨by decide, by decide⟩, by decide, ⟨by decide, by decide⟩,
    .inr (by decide)⟩
  root := by decide

/-- The slots are the 16 of the first cluster and the one with the end mark. -/
theorem straightRoot_wanted :
    straightRoot.wanted = (List.range 17).map fun t => 0xFDC00 + 32 * t := by decide

/-- When freed records keep their bytes, the slots of this directory are read. -/
theorem straightRoot_read : straightRoot.ReadsChain keepingHeap := by
  refine (straightRoot.readsChain_iff keepingHeap).mpr ⟨fun i n inside cluster => ?_, ?_,
    fun turn slot isSlot => ?_⟩
  · have perCluster : straightRoot.perCluster = 16 := by decide
    rw [straightRoot_wanted, List.length_map, List.length_range, perCluster] at inside
    rcases (show i = 0 ∨ i = 1 by omega) with rfl | rfl
    · cases cluster
      rfl
    · cases cluster
      rfl
  · rw [RootImage.Low, straightRoot_wanted]
    decide
  · have ends : ∀ turn < 17, (SlotEnds straightDevice keepingHeap turn (0xFDC00 + 32 * turn) ↔
        turn + 1 = 17) := by decide
    rw [straightRoot_wanted, List.getElem?_map] at isSlot
    obtain ⟨t, isTurn, rfl⟩ := Option.map_eq_some_iff.mp isSlot
    obtain ⟨less, same⟩ := List.getElem?_eq_some_iff.mp isTurn
    rw [List.length_range] at less
    rw [← same, List.getElem_range, straightRoot_wanted]
    exact ends turn less

/-! ## A fragmented root directory -/

/-- The volume of the small image with a root directory in the clusters 1400 and 1402: the FAT
links them, all 16 slots of the first one are entries, and the second one starts with the end of
the directory. -/
def fragmentedDevice : Device where
  size := sampleDevice.size
  byte p :=
    if 0xFDC00 ≤ p ∧ p < 0xFDE00 then
      if p % 32 < 11 then 0x41 else if p % 32 = 11 then 0x20 else 0
    else (([(21984, 0x7A), (21985, 0x05), (21992, 0xFF), (21993, 0xFF), (21994, 0xFF),
      (21995, 0x0F)] ++ sampleBytes).lookup p).getD 0

theorem fragmentedVolume : Volume fragmentedDevice sampleVfat where
  mounted := sampleVfat_mounted_of (by decide +kernel)
  sectors := by decide
  fats := by decide
  consistent := by decide
  entries := by decide
  numbers := by decide
  complete := by decide

/-- A root directory in the clusters 1400 and 1402. -/
def fragmentedRoot : RootImage where
  dev := fragmentedDevice
  f := sampleVfat
  clusters := [1400, 1402]
  volume := fragmentedVolume
  aligned := by decide
  linked := ⟨by decide, ⟨by decide, by decide⟩, by decide, ⟨by decide, by decide⟩,
    .inr (by decide)⟩
  root := by decide

/-- Whatever the heap does, the slots of this directory are not read along its chain. -/
theorem fragmentedRoot_not_read : ¬ ∃ heap, fragmentedRoot.ReadsChain heap := by
  intro reads
  obtain ⟨heap, slots, examines, same⟩ := reads
  obtain ⟨last, -, -, rfl⟩ := examines_iff.mp examines
  have length : fragmentedRoot.wanted.length = 17 := by decide
  have turns : last + 1 = 17 := by
    rw [← length, ← same, List.length_map, List.length_map, List.length_range]
  have seventeenth : fragmentedRoot.wanted[16]? = some 1040384 := by decide
  rw [← same, turns] at seventeenth
  revert seventeenth
  decide

end OsTasks.Fat
