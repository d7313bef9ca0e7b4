import CliMetadata.Identity.Assembly

/-!
# Versions ranked by a request

Which of two versions is closer to a requested one is decided by four cases: whether each of
them has the major number of the request.  Yet each version has a rank of its own for a
request (`AssemblyVersion.rank`), and **a version is closer than another exactly if its rank
is higher** (`AssemblyVersion.closerTo_iff`), for every request, the one for the unknown
version included.  So being closer is a strict weak order, and a scan that keeps the best so
far misses nothing.
-/

namespace CliMetadata

namespace AssemblyVersion

/-- The four numbers of a version as one. -/
def number (v : AssemblyVersion) : Nat :=
  ((v.major.toNat * 65536 + v.minor.toNat) * 65536 + v.build.toNat) * 65536 + v.revision.toNat

theorem compare_append {x x' y y' : Nat} (hy : y < 65536) (hy' : y' < 65536) :
    Ord.compare (x * 65536 + y) (x' * 65536 + y') =
      (Ord.compare x x').then (Ord.compare y y') := by
  rcases Nat.lt_trichotomy x x' with h | rfl | h
  · rw [Nat.compare_eq_lt.mpr h, Nat.compare_eq_lt.mpr (by omega), Ordering.lt_then]
  · rw [Nat.compare_eq_eq.mpr rfl, Ordering.eq_then]
    rcases Nat.lt_trichotomy y y' with h | rfl | h
    · rw [Nat.compare_eq_lt.mpr h, Nat.compare_eq_lt.mpr (by omega)]
    · rw [Nat.compare_eq_eq.mpr rfl, Nat.compare_eq_eq.mpr rfl]
    · rw [Nat.compare_eq_gt.mpr h, Nat.compare_eq_gt.mpr (by omega)]
  · rw [Nat.compare_eq_gt.mpr h, Nat.compare_eq_gt.mpr (by omega), Ordering.gt_then]

/-- **Versions are ordered like the numbers they make up.** -/
theorem compare_eq_number (a b : AssemblyVersion) :
    compare a b = Ord.compare a.number b.number := by
  rw [number, number, compare_append a.revision.toNat_lt b.revision.toNat_lt,
    compare_append a.build.toNat_lt b.build.toNat_lt,
    compare_append a.minor.toNat_lt b.minor.toNat_lt, compare]

/-- The rank of a version for a request.  With another major number than the requested one it
is below 65536 and the major number alone counts; with the same it is above. -/
def rank (target v : AssemblyVersion) : Nat :=
  if v.major = target.major then 65536 + v.number else 65535 - distance v.major target.major

theorem rank_same {target v : AssemblyVersion} (h : v.major = target.major) :
    rank target v = 65536 + v.number := by rw [rank, if_pos h]

theorem rank_other {target v : AssemblyVersion} (h : v.major ≠ target.major) :
    rank target v = 65535 - distance v.major target.major := by rw [rank, if_neg h]

theorem distance_le (a b : UInt16) : distance a b ≤ 65535 := by
  have ha := a.toNat_lt
  have hb := b.toNat_lt
  rw [distance]
  omega

/-- **A version is closer to a request than another exactly if its rank is higher.** -/
theorem closerTo_iff {a b target : AssemblyVersion} :
    a.closerTo b target = true ↔ rank target b < rank target a := by
  have hda := distance_le a.major target.major
  have hdb := distance_le b.major target.major
  by_cases ha : a.major = target.major <;> by_cases hb : b.major = target.major
  · rw [closerTo, beq_iff_eq.mpr ha, beq_iff_eq.mpr hb]
    simp only [rank_same ha, rank_same hb, compare_eq_number, Ordering.isGT_iff_eq_gt,
      Nat.compare_eq_gt]
    omega
  · rw [closerTo, beq_iff_eq.mpr ha, beq_eq_false_iff_ne.mpr hb]
    simp only [rank_same ha, rank_other hb, true_iff]
    omega
  · rw [closerTo, beq_eq_false_iff_ne.mpr ha, beq_iff_eq.mpr hb]
    simp only [rank_other ha, rank_same hb, Bool.false_eq_true, false_iff]
    omega
  · rw [closerTo, beq_eq_false_iff_ne.mpr ha, beq_eq_false_iff_ne.mpr hb]
    simp only [rank_other ha, rank_other hb, decide_eq_true_eq]
    omega

theorem compatibleWith_self (v : AssemblyVersion) : v.compatibleWith v = true := by
  have hcompare : compare v v = .eq := by rw [compare_eq_number, Nat.compare_eq_eq]
  simp [compatibleWith, hcompare]

end AssemblyVersion

namespace AssemblyIdentity

theorem sameCulture_self (culture : Option String) : sameCulture culture culture = true := by
  cases culture <;> simp [sameCulture, Text.Ascii.sameText]

/-- Whether an identity answers a request for the same with another strong name is for the two
strong names to say. -/
theorem satisfies_strongName (i : AssemblyIdentity) (s : Option StrongName) :
    i.satisfies { i with strongName := s } = strongNamesAgree i.strongName s := by
  simp [satisfies, Text.Ascii.sameText, sameCulture_self, AssemblyVersion.compatibleWith_self]

/-- Every identity answers a request for itself. -/
theorem satisfies_self (i : AssemblyIdentity) : i.satisfies i = true := by
  refine (satisfies_strongName i i.strongName).trans ?_
  cases i.strongName <;> simp [strongNamesAgree, StrongName.agrees]

end AssemblyIdentity
end CliMetadata
