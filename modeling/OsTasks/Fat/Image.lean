import Mathlib.Tactic.Ring
import OsTasks.Fat.Geometry
import OsTasks.Fat.Read

/-!
# Volumes and files

What the blocks of a FAT32 volume mean: the FAT links the clusters of a file to a chain
(`Chain`), and the contents of the file are the bytes of its clusters in the order of the chain
(`Image.bytes`). An `Image` is a well-formed volume with the file that `vfat_fuse_read` reads.

On such a volume `get_next_cluster_number` walks along the chain
(`Volume.getNextClusterNumber_cluster`).
-/

set_option autoImplicit false

namespace OsTasks.Fat

open OsTasks.Lib

/-! ## Well-formed volumes -/

/-- The place of an entry of the FAT. -/
def Vfat.fatAddress (f : Vfat) (n : UInt32) : Nat :=
  f.bootSector.rsvdSecCnt.toNat * f.bootSector.bytsPerSec.toNat + n.toNat * 4

/-- The entry of the FAT for a cluster. -/
def fatEntry (dev : Device) (f : Vfat) (n : UInt32) : UInt32 :=
  load32 dev.byte (f.fatAddress n) &&& 0x0FFFFFFF

/-- The number of a data cluster. -/
def Vfat.IsCluster (f : Vfat) (n : UInt32) : Prop := 2 ≤ n ∧ n.toNat < f.countOfClusters.toNat + 2

/-- The clusters from one on, along the links of the FAT. -/
def Chain (dev : Device) (f : Vfat) : UInt32 → List UInt32 → Prop
  | n, [] => n = 0 ∨ isEoc n = true
  | n, cluster :: rest => n = cluster ∧ f.IsCluster cluster ∧ Chain dev f (fatEntry dev f cluster) rest

/-- The offset of an entry of the FAT does not overflow an `int`. -/
theorem fatAddress_lt {f : Vfat} {n : UInt32} (sectors : f.bootSector.bytsPerSec.toNat ≤ 4096)
    (goesOn : ¬ EndOfChain n) : f.fatAddress n < 2 ^ 31 := by
  have reserved : f.bootSector.rsvdSecCnt.toNat * f.bootSector.bytsPerSec.toNat ≤ 65535 * 4096 :=
    Nat.mul_le_mul (Nat.le_of_lt_succ f.bootSector.rsvdSecCnt.toNat_lt) sectors
  have number : n.toNat < vfatEoc.toNat := by
    by_contra large
    exact goesOn (.inr (decide_eq_true (Nat.le_of_not_lt large)))
  have eoc : vfatEoc.toNat = 0x0FFFFFF8 := rfl
  rw [Vfat.fatAddress]
  omega

theorem clusterOffset_of_sectors {f : Vfat} {n : UInt32}
    (sectors : f.bootSector.bytsPerSec.toNat ≤ 4096) (goesOn : ¬ EndOfChain n) :
    f.clusterOffset n = f.fatAddress n := by
  have small : (f.fatAddress n : Int) < 2 ^ 31 := by exact_mod_cast fatAddress_lt sectors goesOn
  exact int32_of_fits (le_trans (by decide) (Int.natCast_nonneg (f.fatAddress n))) small

/-- A well-formed FAT32 volume: its parts fit into its sectors, the FAT has an entry for every
cluster, and all of its sectors are on the device. -/
structure Volume (dev : Device) (f : Vfat) : Prop where
  mounted : Mounted dev f
  sectors : f.bootSector.bytsPerSec.toNat ≤ 4096
  fats : 1 ≤ f.bootSector.numFATs.toNat
  consistent : f.bootSector.rsvdSecCnt.toNat + f.bootSector.numFATs.toNat * f.fatSz.toNat +
    f.rootDirSectors.toNat ≤ f.totSec.toNat
  entries : (f.countOfClusters.toNat + 2) * 4 ≤ f.fatSz.toNat * f.bootSector.bytsPerSec.toNat
  numbers : f.countOfClusters.toNat + 2 ≤ vfatEoc.toNat
  complete : f.totSec.toNat * f.bootSector.bytsPerSec.toNat ≤ dev.size

namespace Volume

variable {dev : Device} {f : Vfat}

theorem clusterSize_pos (volume : Volume dev f) : 0 < f.clusterSize :=
  volume.mounted.geometry.clusterSize_pos

theorem clusterSize_lt (volume : Volume dev f) : f.clusterSize < 2 ^ 31 := by
  have clusters : f.bootSector.secPerClus.toNat < 256 := f.bootSector.secPerClus.toNat_lt
  calc f.clusterSize ≤ 4096 * 256 := Nat.mul_le_mul volume.sectors clusters.le
    _ < 2 ^ 31 := by decide

/-- The parts before the data fit into the volume. -/
theorem fits (volume : Volume dev f) :
    f.bootSector.overheadNat ≤ f.bootSector.totSec.toNat := by
  have geometry := volume.mounted.geometry
  have consistent := volume.consistent
  rw [geometry.fatSz, geometry.rootDirSectors, geometry.totSec,
    VfatSuper.rootDirSectors_toNat] at consistent
  exact consistent

/-- The data clusters fit into the volume. -/
theorem clusters_fit (volume : Volume dev f) : f.firstDataSector.toNat +
    f.countOfClusters.toNat * f.bootSector.secPerClus.toNat ≤ f.totSec.toNat := by
  have geometry := volume.mounted.geometry
  have fits := volume.fits
  have first : f.firstDataSector.toNat = f.bootSector.overheadNat := by
    rw [geometry.firstDataSector, VfatSuper.overhead_of_fits fits]
  have data : f.dataSec.toNat = f.totSec.toNat - f.firstDataSector.toNat := by
    rw [geometry.dataSec, VfatSuper.dataSec_of_fits fits, geometry.totSec, first]
  have count : f.countOfClusters.toNat * f.bootSector.secPerClus.toNat ≤ f.dataSec.toNat := by
    rw [geometry.countOfClusters, VfatSuper.countOfClusters, ← geometry.dataSec, UInt32.toNat_div,
      UInt8.toNat_toUInt32]
    exact Nat.div_mul_le_self _ _
  rw [geometry.totSec] at data ⊢
  omega

variable {n : UInt32}

theorem cluster_inside (volume : Volume dev f) (cluster : f.IsCluster n) :
    f.clusterAddress n + f.clusterSize ≤ dev.size := by
  obtain ⟨low, high⟩ := cluster
  have least : 2 ≤ n.toNat := low
  have fit := volume.clusters_fit
  calc f.clusterAddress n + f.clusterSize
      = (f.firstDataSector.toNat + (n.toNat - 2 + 1) * f.bootSector.secPerClus.toNat) *
          f.bootSector.bytsPerSec.toNat := by
        rw [Vfat.clusterAddress, Vfat.clusterSize]
        ring
    _ ≤ f.totSec.toNat * f.bootSector.bytsPerSec.toNat := by
        refine Nat.mul_le_mul_right _ (le_trans (Nat.add_le_add_left ?_ _) fit)
        exact Nat.mul_le_mul_right _ (by omega)
    _ ≤ dev.size := volume.complete

/-- What the code reads as the data of a cluster is on the device. -/
theorem data_inside (volume : Volume dev f) (cluster : f.IsCluster n) {count : Nat}
    (part : count ≤ f.clusterSize) : (f.dataStart n).toNat + count ≤ dev.size := by
  have start := dataStart_le f cluster.1
  have inside := volume.cluster_inside cluster
  omega

theorem fatEntry_inside (volume : Volume dev f) (cluster : f.IsCluster n) :
    f.fatAddress n + 4 ≤ dev.size := by
  have high := cluster.2
  have entries := volume.entries
  have consistent := volume.consistent
  have one : f.fatSz.toNat ≤ f.bootSector.numFATs.toNat * f.fatSz.toNat :=
    Nat.le_mul_of_pos_left _ volume.fats
  calc f.fatAddress n + 4
      ≤ f.bootSector.rsvdSecCnt.toNat * f.bootSector.bytsPerSec.toNat +
          f.fatSz.toNat * f.bootSector.bytsPerSec.toNat := by
        rw [Vfat.fatAddress]
        omega
    _ = (f.bootSector.rsvdSecCnt.toNat + f.fatSz.toNat) * f.bootSector.bytsPerSec.toNat :=
        (Nat.add_mul _ _ _).symm
    _ ≤ f.totSec.toNat * f.bootSector.bytsPerSec.toNat := Nat.mul_le_mul_right _ (by omega)
    _ ≤ dev.size := volume.complete

/-- A cluster of the volume does not stand for the end of a chain. -/
theorem cluster_goesOn (volume : Volume dev f) (cluster : f.IsCluster n) : ¬ EndOfChain n := by
  have below : n.toNat < vfatEoc.toNat := Nat.lt_of_lt_of_le cluster.2 volume.numbers
  rintro (zero | eoc)
  · rw [zero] at cluster
    exact absurd cluster.1 (by decide)
  · exact absurd (of_decide_eq_true eoc) (UInt32.not_le.mpr below)

end Volume

/-! ## Walking along a chain -/

/-- Two states of the file system on one volume. -/
def SameVolume (f g : Vfat) : Prop :=
  g.bootSector = f.bootSector ∧ g.firstDataSector = f.firstDataSector

namespace SameVolume

variable {f g : Vfat}

theorem setClusters (same : SameVolume f g) (current next : UInt32) :
    SameVolume f (g.setClusters current next) := same

theorem clusterSize (same : SameVolume f g) : g.clusterSize = f.clusterSize := by
  rw [Vfat.clusterSize, Vfat.clusterSize, same.1]

theorem dataStart (same : SameVolume f g) (n : UInt32) : g.dataStart n = f.dataStart n := by
  rw [Vfat.dataStart, Vfat.dataStart, Vfat.computeFirstSectorOfCluster,
    Vfat.computeFirstSectorOfCluster, same.1, same.2]

theorem clusterOffset (same : SameVolume f g) (n : UInt32) :
    g.clusterOffset n = f.clusterOffset n := by
  rw [Vfat.clusterOffset, Vfat.clusterOffset, same.1]

end SameVolume

theorem sameVolume_getNext {dev : Device} {f g : Vfat} (same : SameVolume f g) :
    SameVolume f (getNextClusterNumber dev g).2 := by
  simp only [getNextClusterNumber]
  split <;> exact same

theorem sameVolume_loadDirentry {dev : Device} {f : Vfat} : SameVolume f (f.loadDirentry dev) := by
  rw [Vfat.loadDirentry]
  exact ⟨rfl, rfl⟩

/-- Where a chain goes on, the number after the present one is its entry in the FAT. -/
theorem getNextClusterNumber_entry {dev : Device} {f g : Vfat} (same : SameVolume f g)
    (sectors : f.bootSector.bytsPerSec.toNat ≤ 4096) (goesOn : ¬ EndOfChain g.nextClusterNumber)
    (inside : f.fatAddress g.nextClusterNumber + 4 ≤ dev.size) : getNextClusterNumber dev g =
      (0, g.setClusters g.nextClusterNumber (fatEntry dev f g.nextClusterNumber)) := by
  obtain ⟨notZero, notEoc⟩ := not_or.mp goesOn
  have positive : 0 < g.nextClusterNumber := UInt32.pos_iff_ne_zero.mpr notZero
  rw [getNextClusterNumber]
  rw [if_pos ⟨positive, by simp [notEoc]⟩, same.clusterOffset,
    clusterOffset_of_sectors sectors goesOn]
  dsimp only
  rw [load32_pread inside]
  rfl

/-- At a cluster of the volume, the number after it is its entry in the FAT. -/
theorem Volume.getNextClusterNumber_cluster {dev : Device} {f g : Vfat} (volume : Volume dev f)
    (same : SameVolume f g) (cluster : f.IsCluster g.nextClusterNumber) :
    getNextClusterNumber dev g =
      (0, g.setClusters g.nextClusterNumber (fatEntry dev f g.nextClusterNumber)) :=
  getNextClusterNumber_entry same volume.sectors (volume.cluster_goesOn cluster)
    (volume.fatEntry_inside cluster)

theorem getNextClusterNumber_end {dev : Device} {g : Vfat}
    (ends : EndOfChain g.nextClusterNumber) :
    getNextClusterNumber dev g = (-1, g.setClusters 0xFFFFFFFF 0xFFFFFFFF) := by
  rw [getNextClusterNumber]
  refine if_neg fun goesOn => ?_
  rcases ends with zero | eoc
  · rw [zero] at goesOn
    exact absurd goesOn.1 (by decide)
  · rw [eoc] at goesOn
    cases goesOn.2

/-! ## Images -/

/-- The directory entry that `vfat_fuse_read` loads. -/
def direntry (dev : Device) : VfatDirentry := VfatDirentry.load fun i => dev.byte (direntryOffset + i)

/-- A well-formed volume with a well-formed file: its chain is finite, has clusters of the volume
only, and is long enough for the file. -/
structure Image where
  dev : Device
  f : Vfat
  chain : List UInt32
  volume : Volume dev f
  entry : direntryOffset + vfatDirentrySize ≤ dev.size
  linked : Chain dev f (direntry dev).cluster chain
  covers : (direntry dev).fileSize.toNat ≤ chain.length * f.clusterSize

namespace Image

/-- `DIR_FileSize`. -/
def fileSize (image : Image) : Nat := (direntry image.dev).fileSize.toNat

/-- The clusters of the file, one after the other. -/
def bytes (image : Image) : List UInt8 :=
  image.chain.flatMap fun n => image.dev.slice (image.f.clusterAddress n) image.f.clusterSize

/-- The loop starts at the first cluster of the file. -/
theorem loadDirentry_next (image : Image) :
    (image.f.loadDirentry image.dev).nextClusterNumber = (direntry image.dev).cluster := by
  have byte : ∀ i < 32, fill image.f.currentDirentry
      (image.dev.pread vfatDirentrySize direntryOffset) i = image.dev.byte (direntryOffset + i) :=
    fun i within => fill_pread image.entry within
  have high : load16 (fill image.f.currentDirentry
      (image.dev.pread vfatDirentrySize direntryOffset)) 20 =
        load16 (fun i => image.dev.byte (direntryOffset + i)) 20 := by
    rw [load16, byte 20 (by decide), byte (20 + 1) (by decide)]
    rfl
  have low : load16 (fill image.f.currentDirentry
      (image.dev.pread vfatDirentrySize direntryOffset)) 26 =
        load16 (fun i => image.dev.byte (direntryOffset + i)) 26 := by
    rw [load16, byte 26 (by decide), byte (26 + 1) (by decide)]
    rfl
  change VfatDirentry.cluster (VfatDirentry.load _) = _
  rw [VfatDirentry.cluster, VfatDirentry.load, direntry]
  dsimp only
  rw [high, low]
  rfl

end Image

/-! ## A small image -/

/-- The bytes that are not 0 of a volume with 70632 sectors: the boot sector, two entries of the
FAT, the data of the file, and its directory entry. -/
def sampleBytes : List (Nat × UInt8) :=
  [(12, 0x02), (13, 0x01), (14, 0x20), (16, 0x01), (32, 0xE8), (33, 0x13), (34, 0x01), (36, 0x58),
    (37, 0x02), (44, 0x78), (45, 0x05), (510, 0x55), (511, 0xAA),
    (16396, 0x04), (16400, 0xFF), (16401, 0xFF), (16402, 0xFF), (16403, 0x0F),
    (324096, 0x61), (324097, 0x62), (324098, 0x63), (324099, 0x64),
    (direntryOffset, 0x46), (direntryOffset + 11, 0x20), (direntryOffset + 26, 0x03),
    (direntryOffset + 28, 0x58), (direntryOffset + 29, 0x02)]

/-- A device of 70632 sectors. -/
def sampleDevice : Device where
  size := 70632 * 512
  byte p := (sampleBytes.lookup p).getD 0

/-- The boot sector of the sample. -/
def sampleSuper : VfatSuper where
  bytsPerSec := 512
  secPerClus := 1
  rsvdSecCnt := 32
  numFATs := 1
  rootEntCnt := 0
  totSec16 := 0
  fatSz16 := 0
  totSec32 := 70632
  fatSz32 := 600
  rootClus := 1400
  sig := vfatSignature

/-- What `vfat_init` makes of the sample. -/
def sampleVfat : Vfat where
  bootSector := sampleSuper
  rootDirSectors := 0
  fatSz := 600
  firstDataSector := 632
  totSec := 70632
  dataSec := 70000
  countOfClusters := 70000
  currentDirentry := fun _ => 0
  currentClusterNumber := 0
  nextClusterNumber := 0

/-- Every device with the boot sector of the small image is mounted in the same way. -/
theorem sampleVfat_mounted_of {dev : Device}
    (boot : VfatSuper.load (fill (fun _ => 0) (dev.pread vfatSuperSize 0)) = sampleSuper) :
    Mounted dev sampleVfat := by
  refine ⟨fun _ => 0, sampleVfat, ?_⟩
  rw [vfatInit]
  rw [boot, if_neg (by decide), if_neg (by decide), if_neg (by decide), if_neg (by decide)]
  rfl

theorem sampleDevice_boot :
    VfatSuper.load (fill (fun _ => 0) (sampleDevice.pread vfatSuperSize 0)) = sampleSuper := by
  decide +kernel

theorem sampleVfat_mounted : Mounted sampleDevice sampleVfat :=
  sampleVfat_mounted_of sampleDevice_boot

/-- Only the first 512 bytes of the device are read. -/
theorem sampleVfat_mounted_of_boot {dev : Device} (size : 512 ≤ dev.size)
    (boot : ∀ i < 512, dev.byte i = sampleDevice.byte i) : Mounted dev sampleVfat := by
  have bytes : dev.pread vfatSuperSize 0 = sampleDevice.pread vfatSuperSize 0 := by
    have inside : 0 + vfatSuperSize ≤ dev.size := by
      rw [Nat.zero_add]
      exact size
    have read : dev.pread vfatSuperSize 0 = dev.slice 0 vfatSuperSize := pread_inside inside
    have read' : sampleDevice.pread vfatSuperSize 0 = sampleDevice.slice 0 vfatSuperSize :=
      @pread_inside sampleDevice vfatSuperSize 0 (by decide)
    rw [read, read']
    refine List.map_congr_left fun i less => ?_
    rw [Nat.zero_add]
    exact boot i (List.mem_range.mp less)
  apply sampleVfat_mounted_of
  rw [bytes]
  exact sampleDevice_boot

theorem sampleVolume : Volume sampleDevice sampleVfat where
  mounted := sampleVfat_mounted
  sectors := by decide
  fats := by decide
  consistent := by decide
  entries := by decide
  numbers := by decide
  complete := by decide

/-- A file of 600 bytes in the clusters 3 and 4. -/
def sampleImage : Image where
  dev := sampleDevice
  f := sampleVfat
  chain := [3, 4]
  volume := sampleVolume
  entry := by decide
  linked := ⟨rfl, ⟨by decide, by decide⟩, by decide +kernel, ⟨by decide, by decide⟩,
    .inr (by decide)⟩
  covers := by decide

/-! ## Small root directories -/

/-- The volume of the small image with these slots in its root directory. -/
def sampleRoot (slots : List (List UInt8)) : Device where
  size := sampleDevice.size
  byte p :=
    if p < 0xFDC00 then sampleDevice.byte p
    else (slots.getD ((p - 0xFDC00) / 32) []).getD ((p - 0xFDC00) % 32) 0

/-- A slot with a name and an attribute. -/
def sampleSlot (name : List UInt8) (attr : UInt8) : List UInt8 :=
  name ++ List.replicate (11 - name.length) 0x20 ++ [attr]

theorem sampleRoot_mounted (slots : List (List UInt8)) : Mounted (sampleRoot slots) sampleVfat :=
  sampleVfat_mounted_of_boot (show 512 ≤ 70632 * 512 by decide) fun i less => if_pos (by omega)

end OsTasks.Fat
