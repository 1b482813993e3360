import OsTasks.Fat.Init

/-!
# Geometry without bounds

`vfat_init` computes the geometry of a volume in `uint32_t`, and the byte address of a cluster
is computed in `uint32_t` as well. This module compares both with what they stand for, over
the unbounded integers.

The only test of `vfat_init` is on the number of clusters, which is computed after the
subtraction. When the parts before the data do not fit into the sectors of the volume, the
subtraction wraps around and the volume passes as one with very many clusters. `exactGeometry_iff`
says that this is the only thing that goes wrong with a volume that is not rejected.

A cluster is addressed exactly when its address is below 2^32, which is 4 GiB
(`addressedExactly_iff`).
-/

set_option autoImplicit false

namespace OsTasks.Fat

namespace VfatSuper

variable (bs : VfatSuper)

/-- `RootDirSectors` over the unbounded integers. -/
def rootDirSectorsNat : Nat :=
  (bs.rootEntCnt.toNat * 32 + (bs.bytsPerSec.toNat - 1)) / bs.bytsPerSec.toNat

/-- The sectors before the data, over the unbounded integers. -/
def overheadNat : Nat :=
  bs.rsvdSecCnt.toNat + bs.numFATs.toNat * bs.fatSz.toNat + bs.rootDirSectorsNat

/-- The number of sectors of the root directory does not wrap around. -/
theorem rootDirSectors_toNat : bs.rootDirSectors.toNat = bs.rootDirSectorsNat := by
  have entries : bs.rootEntCnt.toNat < 65536 := bs.rootEntCnt.toNat_lt
  have sector : bs.bytsPerSec.toNat < 65536 := bs.bytsPerSec.toNat_lt
  refine UInt32.toNat_ofNat_of_lt' (Nat.lt_of_le_of_lt (Nat.div_le_self _ _) ?_)
  change _ < 2 ^ 32
  omega

theorem overhead_toNat : bs.overhead.toNat = bs.overheadNat % 2 ^ 32 := by
  rw [overhead, overheadNat]
  rw [UInt32.toNat_add, UInt32.toNat_add, UInt32.toNat_mul, UInt16.toNat_toUInt32,
    UInt8.toNat_toUInt32, rootDirSectors_toNat, Nat.add_mod_mod, Nat.mod_add_mod]

variable {bs}

/-- The sectors before the data fit into the volume: nothing wraps around. -/
theorem overhead_of_fits (fits : bs.overheadNat ≤ bs.totSec.toNat) :
    bs.overhead.toNat = bs.overheadNat := by
  rw [overhead_toNat]
  exact Nat.mod_eq_of_lt (Nat.lt_of_le_of_lt fits bs.totSec.toNat_lt)

theorem dataSec_of_fits (fits : bs.overheadNat ≤ bs.totSec.toNat) :
    bs.dataSec.toNat = bs.totSec.toNat - bs.overheadNat := by
  have overhead := overhead_of_fits fits
  rw [dataSec, ← overhead]
  refine UInt32.toNat_sub_of_le _ _ (UInt32.le_iff_toNat_le.mpr ?_)
  rwa [overhead]

theorem countOfClusters_of_fits (fits : bs.overheadNat ≤ bs.totSec.toNat) :
    bs.countOfClusters.toNat = (bs.totSec.toNat - bs.overheadNat) / bs.secPerClus.toNat := by
  rw [countOfClusters, UInt32.toNat_div, dataSec_of_fits fits, UInt8.toNat_toUInt32]

end VfatSuper

/-- The fields that `vfat_init` has set are what they stand for, over the unbounded integers, and
the volume has as many clusters as FAT32 needs. -/
structure Vfat.ExactGeometry (f : Vfat) : Prop where
  rootDirSectors : f.rootDirSectors.toNat = f.bootSector.rootDirSectorsNat
  fatSz : f.fatSz = f.bootSector.fatSz
  totSec : f.totSec = f.bootSector.totSec
  fits : f.bootSector.overheadNat ≤ f.totSec.toNat
  firstDataSector : f.firstDataSector.toNat = f.bootSector.overheadNat
  dataSec : f.dataSec.toNat = f.totSec.toNat - f.bootSector.overheadNat
  countOfClusters : f.countOfClusters.toNat =
    (f.totSec.toNat - f.bootSector.overheadNat) / f.bootSector.secPerClus.toNat
  fat32 : 65525 ≤ f.countOfClusters.toNat

/-- What is set for a boot sector with enough clusters, as far as `vfat_init` can see. -/
theorem setGeometry_exact_iff (f : Vfat) {bs : VfatSuper} (fat32 : 65525 ≤ bs.countOfClusters) :
    (f.setGeometry bs).ExactGeometry ↔ bs.overheadNat ≤ bs.totSec.toNat := by
  constructor
  · intro geometry
    exact geometry.fits
  · intro fits
    constructor
    case rootDirSectors => exact bs.rootDirSectors_toNat
    case fatSz => rfl
    case totSec => rfl
    case fits => exact fits
    case firstDataSector => exact VfatSuper.overhead_of_fits fits
    case dataSec => exact VfatSuper.dataSec_of_fits fits
    case countOfClusters => exact VfatSuper.countOfClusters_of_fits fits
    case fat32 => exact UInt32.le_iff_toNat_le.mp fat32

/-- The boot sector that `vfat_init` reads. -/
def bootSectorOf (dev : Device) (heap : Memory) : VfatSuper :=
  VfatSuper.load (fill heap (dev.pread vfatSuperSize 0))

section Outcome

variable {dev : Device} {heap : Memory} {f : Vfat}

/-- A volume that is not rejected as FAT12 or FAT16 has many clusters, as far as `vfat_init` can
see. -/
theorem fat32_of_not_rejected (bytsPerSec : (bootSectorOf dev heap).bytsPerSec ≠ 0)
    (secPerClus : (bootSectorOf dev heap).secPerClus ≠ 0)
    (notFat12 : vfatInit dev heap f ≠ .error .fat12)
    (notFat16 : vfatInit dev heap f ≠ .error .fat16) :
    65525 ≤ (bootSectorOf dev heap).countOfClusters := by
  rw [vfatInit] at notFat12 notFat16
  rw [bootSectorOf] at bytsPerSec secPerClus ⊢
  generalize VfatSuper.load (fill heap (dev.pread vfatSuperSize 0)) = bs at *
  rw [if_neg (not_or.mpr ⟨bytsPerSec, secPerClus⟩)] at notFat12 notFat16
  dsimp only [Vfat.setGeometry] at notFat12 notFat16
  by_cases small : bs.countOfClusters < 4085
  · exact absurd (if_pos small) notFat12
  · rw [if_neg small] at notFat16
    by_cases medium : bs.countOfClusters < 65525
    · exact absurd (if_pos medium) notFat16
    · exact UInt32.not_lt.mp medium

/-- A volume that is accepted has the fields of its boot sector. -/
theorem vfatInit_setGeometry {f' : Vfat} (init : vfatInit dev heap f = .ok f') :
    f' = f.setGeometry (bootSectorOf dev heap) := by
  obtain ⟨bs, rfl, same, -⟩ := vfatInit_eq_ok_iff.mp init
  exact same

end Outcome

/-- **Geometry.** The geometry that `vfat_init` sets for a volume that it does not reject as FAT12
or FAT16 is exact when and only when the sectors before the data fit into the volume. The second
part is about the volumes that it accepts, the first one also about those that it goes on to
reject for their signature. -/
theorem exactGeometry_iff (dev : Device) (heap : Memory) (f : Vfat)
    (bytsPerSec : (bootSectorOf dev heap).bytsPerSec ≠ 0)
    (secPerClus : (bootSectorOf dev heap).secPerClus ≠ 0)
    (notFat12 : vfatInit dev heap f ≠ .error .fat12)
    (notFat16 : vfatInit dev heap f ≠ .error .fat16) :
    ((f.setGeometry (bootSectorOf dev heap)).ExactGeometry ↔
      (bootSectorOf dev heap).overheadNat ≤ (bootSectorOf dev heap).totSec.toNat) ∧
    ∀ f', vfatInit dev heap f = .ok f' → f'.bootSector = bootSectorOf dev heap ∧
      (f'.ExactGeometry ↔ f'.bootSector.overheadNat ≤ f'.bootSector.totSec.toNat) := by
  have clusters := fat32_of_not_rejected bytsPerSec secPerClus notFat12 notFat16
  refine ⟨setGeometry_exact_iff f clusters, fun f' init => ?_⟩
  rw [vfatInit_setGeometry init]
  exact ⟨rfl, setGeometry_exact_iff f clusters⟩

/-- `vfat_init` accepts a volume with this boot sector. -/
def VfatSuper.Accepted (bs : VfatSuper) : Prop :=
  bs.bytsPerSec ≠ 0 ∧ bs.secPerClus ≠ 0 ∧ 65525 ≤ bs.countOfClusters ∧ bs.sig = vfatSignature

instance (bs : VfatSuper) : Decidable bs.Accepted :=
  inferInstanceAs (Decidable (_ ∧ _ ∧ _ ∧ _))

theorem vfatInit_accepted {dev : Device} {heap : Memory}
    (accepted : (bootSectorOf dev heap).Accepted) (f : Vfat) :
    vfatInit dev heap f = .ok (f.setGeometry (bootSectorOf dev heap)) :=
  vfatInit_eq_ok_iff.mpr ⟨bootSectorOf dev heap, rfl, rfl, accepted⟩

/-- A device with nothing but a boot sector. -/
def bootDevice (bytes : List (Nat × UInt8)) : Device where
  size := vfatSuperSize
  byte p := (bytes.lookup p).getD 0

/-- A volume of 8 GiB: 16777216 sectors of 512 bytes, 8 of them in a cluster, 32 reserved ones, and
two FATs of 16384 sectors. The root directory is in the cluster 1048578. -/
def largeBoot : Device :=
  bootDevice [(12, 0x02), (13, 0x08), (14, 0x20), (16, 0x02), (35, 0x01), (37, 0x40), (44, 0x02),
    (46, 0x10), (510, 0x55), (511, 0xAA)]

/-- A volume of 100 sectors, with 32 reserved ones and one FAT of 600 sectors. -/
def corruptBoot : Device :=
  bootDevice [(12, 0x02), (13, 0x01), (14, 0x20), (16, 0x01), (32, 0x64), (36, 0x58), (37, 0x02),
    (510, 0x55), (511, 0xAA)]

theorem largeBoot_boot : bootSectorOf largeBoot (fun _ => 0) =
    ⟨512, 8, 32, 2, 0, 0, 0, 16777216, 16384, 1048578, vfatSignature⟩ := by
  decide +kernel

theorem corruptBoot_boot : bootSectorOf corruptBoot (fun _ => 0) =
    ⟨512, 1, 32, 1, 0, 0, 0, 100, 600, 0, vfatSignature⟩ := by
  decide +kernel

theorem largeBoot_accepted : (bootSectorOf largeBoot fun _ => 0).Accepted := by
  rw [largeBoot_boot]
  decide

theorem corruptBoot_accepted : (bootSectorOf corruptBoot fun _ => 0).Accepted := by
  rw [corruptBoot_boot]
  decide

/-- `vfat_info` before the mount. -/
def unmounted : Vfat :=
  ⟨VfatSuper.load fun _ => 0, 0, 0, 0, 0, 0, 0, fun _ => 0, 0, 0⟩

/-- An accepted volume is not rejected. -/
theorem not_rejected {dev : Device} {heap : Memory} (accepted : (bootSectorOf dev heap).Accepted)
    (f : Vfat) (stop : InitStop) : vfatInit dev heap f ≠ .error stop := by
  rw [vfatInit_accepted accepted f]
  nofun

theorem largeBoot_exactGeometry : ∃ f, vfatInit largeBoot (fun _ => 0) unmounted = .ok f ∧
    f.bootSector.overheadNat = 32800 ∧ f.ExactGeometry := by
  have accepted := largeBoot_accepted
  have init := vfatInit_accepted accepted unmounted
  have geometry := (exactGeometry_iff largeBoot (fun _ => 0) unmounted accepted.1 accepted.2.1
    (not_rejected accepted _ _) (not_rejected accepted _ _)).2 _ init
  refine ⟨_, init, ?_, geometry.2.mpr ?_⟩
  · rw [geometry.1, largeBoot_boot]
    rfl
  · rw [geometry.1, largeBoot_boot]
    decide

/-- The 100 sectors less the 632 before the data wrap around to more than 4 * 10^9 clusters. -/
theorem corruptBoot_not_exact :
    ¬ ∀ (dev : Device) (heap : Memory) (f f' : Vfat), (bootSectorOf dev heap).bytsPerSec ≠ 0 →
      (bootSectorOf dev heap).secPerClus ≠ 0 → vfatInit dev heap f = .ok f' →
        f'.ExactGeometry := by
  intro law
  have accepted := corruptBoot_accepted
  have geometry := law corruptBoot (fun _ => 0) unmounted _ accepted.1 accepted.2.1
    (vfatInit_accepted accepted unmounted)
  have fits := geometry.fits
  dsimp only [Vfat.setGeometry] at fits
  rw [corruptBoot_boot] at fits
  revert fits
  decide

/-! ## Addresses of clusters -/

/-- The first `direntry_offset` of `vfat_read_root_directory` and `vfat_read_directory`. -/
def Vfat.rootOffset (f : Vfat) : UInt32 :=
  f.computeFirstSectorOfCluster f.bootSector.rootClus * f.bootSector.bytsPerSec.toUInt32

theorem rootOffset_eq (f : Vfat) : f.rootOffset = f.dataStart f.bootSector.rootClus :=
  UInt32.mul_comm _ _

/-- The address of a cluster, over the unbounded integers. -/
def VfatSuper.clusterAddress (bs : VfatSuper) (c : UInt32) : Nat :=
  (bs.overheadNat + (c.toNat - 2) * bs.secPerClus.toNat) * bs.bytsPerSec.toNat

/-- The first data sector of a mounted volume whose sector counts are consistent. -/
theorem Mounted.clusterAddress_eq {dev : Device} {f : Vfat} (mounted : Mounted dev f)
    (consistent : f.bootSector.overheadNat ≤ f.bootSector.totSec.toNat) (c : UInt32) :
    f.clusterAddress c = f.bootSector.clusterAddress c := by
  rw [Vfat.clusterAddress, VfatSuper.clusterAddress, mounted.geometry.firstDataSector,
    VfatSuper.overhead_of_fits consistent]

/-- The offset at which the data of a cluster is read, and for the root cluster the offset at
which its entries are read, is the address of the cluster. -/
def Vfat.AddressedExactly (f : Vfat) (c : UInt32) : Prop :=
  (f.dataStart c).toNat = f.bootSector.clusterAddress c ∧
    (c = f.bootSector.rootClus → f.rootOffset.toNat = f.bootSector.clusterAddress c)

/-- **Addresses.** On a mounted volume whose sector counts are consistent, a data cluster is
addressed exactly when its address is below 2^32. -/
theorem addressedExactly_iff (dev : Device) (f : Vfat) (mounted : Mounted dev f)
    (consistent : f.bootSector.overheadNat ≤ f.bootSector.totSec.toNat) (c : UInt32) (data : 2 ≤ c) :
    f.AddressedExactly c ↔ f.bootSector.clusterAddress c < 2 ^ 32 := by
  have computed := dataStart_toNat f data
  rw [mounted.clusterAddress_eq consistent] at computed
  constructor
  · rintro ⟨same, -⟩
    rw [← same]
    exact (f.dataStart c).toNat_lt
  · intro small
    rw [Nat.mod_eq_of_lt small] at computed
    refine ⟨computed, fun root => ?_⟩
    rw [rootOffset_eq, ← root, computed]

theorem largeBoot_mounted : ∃ f, Mounted largeBoot f ∧
    f.bootSector = bootSectorOf largeBoot fun _ => 0 := by
  have init := vfatInit_accepted largeBoot_accepted unmounted
  exact ⟨_, ⟨_, _, init⟩, rfl⟩

theorem largeBoot_cluster_three : ∃ f, Mounted largeBoot f ∧
    f.bootSector.overheadNat ≤ f.bootSector.totSec.toNat ∧ f.AddressedExactly 3 := by
  obtain ⟨f, mounted, boot⟩ := largeBoot_mounted
  rw [largeBoot_boot] at boot
  have consistent : f.bootSector.overheadNat ≤ f.bootSector.totSec.toNat := by
    rw [boot]
    decide
  refine ⟨f, mounted, consistent, ?_⟩
  refine (addressedExactly_iff largeBoot f mounted consistent 3 (by decide)).mpr ?_
  rw [boot]
  decide

/-- The root directory of the large volume is above 4 GiB, and is read at its address less
2^32. -/
theorem largeBoot_root_wraps :
    ¬ ∀ (dev : Device) (f : Vfat) (c : UInt32), Mounted dev f →
      f.bootSector.overheadNat ≤ f.bootSector.totSec.toNat → 2 ≤ c →
      c.toNat ≤ f.countOfClusters.toNat + 1 → f.AddressedExactly c := by
  intro law
  obtain ⟨f, mounted, boot⟩ := largeBoot_mounted
  rw [largeBoot_boot] at boot
  have consistent : f.bootSector.overheadNat ≤ f.bootSector.totSec.toNat := by
    rw [boot]
    decide
  have inside : (1048578 : UInt32).toNat ≤ f.countOfClusters.toNat + 1 := by
    rw [mounted.geometry.countOfClusters, boot]
    decide
  obtain ⟨same, -⟩ := law largeBoot f 1048578 mounted consistent (by decide) inside
  have small := (f.dataStart 1048578).toNat_lt
  rw [same, boot] at small
  revert small
  decide

end OsTasks.Fat
