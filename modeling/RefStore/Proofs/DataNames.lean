import Mathlib.Data.Nat.Digits.Defs
import RefStore.Proofs.Shelves
import RefStore.Proofs.Stocks

/-!
# Names of data files

The files of a cluster have names of data files, of at most 33 bytes. Main statement:
`Path.Roomy.fits`, a directory with room for the longest of them has room for all.
-/

namespace RefStore

theorem String.utf8ByteSize_ofList_of_ascii {cs : List Char} (h : ∀ c ∈ cs, c.val ≤ 127) :
    (String.ofList cs).utf8ByteSize = cs.length := by
  induction cs with
  | nil => rfl
  | cons c cs ih =>
    rw [String.ofList_cons, String.utf8ByteSize_append, String.utf8ByteSize_singleton,
      Char.utf8Size_eq_one_iff.mpr (h c List.mem_cons_self),
      ih fun c hc => h c (List.mem_cons_of_mem _ hc), List.length_cons, Nat.add_comm]

namespace Cluster

variable (cluster : ClusterId)

/-- The number of a cluster takes at most a sign and ten digits. -/
theorem ofInt_chars : (∀ c ∈ Decimal.ofInt cluster.toInt, c = '-' ∨ c.isDigit = true) ∧
    (Decimal.ofInt cluster.toInt).length ≤ 11 := by
  have hdigit {n : Nat} {c : Char} (hc : c ∈ Nat.toDigits 10 n) : c.isDigit = true :=
    Nat.isDigit_of_mem_toDigits (by decide) (by decide) hc
  have hlen {n : Nat} (hn : n < 10 ^ 10) : (Nat.toDigits 10 n).length ≤ 10 :=
    Nat.toDigits_length 10 n 10 (by decide) hn
  have hlow := cluster.le_toInt
  have hhigh := cluster.toInt_lt
  generalize cluster.toInt = z at hlow hhigh
  cases z with
  | ofNat n =>
    refine ⟨fun c hc => .inr (hdigit hc), Nat.le_succ_of_le (hlen ?_)⟩
    simp only [Int.ofNat_eq_natCast] at hhigh
    omega
  | negSucc n =>
    refine ⟨fun c hc => ?_, Nat.succ_le_succ (hlen ?_)⟩
    · rcases List.mem_cons.mp hc with rfl | hc
      · exact .inl rfl
      · exact .inr (hdigit hc)
    · omega

/-- A name of a cluster's file is made of characters of one byte that do not lead anywhere. -/
theorem dataName_append (extension : String) (hlen : extension.utf8ByteSize = 4)
    (hchars : '/' ∉ extension.toList ∧ '\x00' ∉ extension.toList) :
    Volume.DataName (componentName cluster ++ extension) ∧
      (componentName cluster ++ extension).utf8ByteSize ≤ 33 := by
  obtain ⟨hdigits, hcount⟩ := ofInt_chars cluster
  have hascii : ∀ c ∈ Decimal.ofInt cluster.toInt, c.val ≤ 127 := by
    intro c hc
    rcases hdigits c hc with rfl | hd
    · decide
    · simp only [Char.isDigit, Bool.and_eq_true, decide_eq_true_eq] at hd
      exact UInt32.le_trans hd.2 (by decide)
  have hstem : stem.utf8ByteSize = 18 := by decide +kernel
  have hsize : (componentName cluster ++ extension).utf8ByteSize =
      18 + (Decimal.ofInt cluster.toInt).length + 4 := by
    rw [componentName, String.utf8ByteSize_append, String.utf8ByteSize_append, hstem, hlen,
      String.utf8ByteSize_ofList_of_ascii hascii]
  have hno {c : Char} (hs : c ∉ stem.toList) (he : c ∉ extension.toList) (hc : c ≠ '-' ∧ c.isDigit = false) :
      c ∉ (componentName cluster ++ extension).toList := by
    rw [componentName, String.toList_append, String.toList_append, String.toList_ofList, List.mem_append,
      List.mem_append]
    rintro ((hm | hm) | hm)
    · exact hs hm
    · rcases hdigits c hm with h | h
      · exact hc.1 h
      · rw [hc.2] at h
        cases h
    · exact he hm
  have hne (x : String) (hx : x.utf8ByteSize ≤ 13) : componentName cluster ++ extension ≠ x := by
    rintro rfl
    omega
  refine ⟨⟨⟨hno (by decide) hchars.1 (by decide), hno (by decide) hchars.2 (by decide), ?_,
    hne _ (by decide +kernel), by simp only [Path.longestName]; omega⟩, by omega⟩, by omega⟩
  simp [Path.stays, hne "" (by decide), hne "." (by decide +kernel)]

theorem treeName_dataName : Volume.DataName (treeName cluster) ∧ (treeName cluster).utf8ByteSize ≤ 33 :=
  dataName_append cluster Tree.extension (by decide +kernel) (by decide)

theorem sizesName_dataName : Volume.DataName (sizesName cluster) ∧ (sizesName cluster).utf8ByteSize ≤ 33 :=
  dataName_append cluster SizeMap.extension (by decide +kernel) (by decide)

end Cluster

/-- A directory whose path leaves room for the names of all files of clusters. -/
def Path.Roomy (dir : Path) : Prop := (dir.join (Cluster.treeName (-2147483648))).isUsable = true

instance (dir : Path) : Decidable dir.Roomy := inferInstanceAs (Decidable (_ = true))

/-- The path of a short name leaves it. -/
theorem Path.roomy_d : Path.Roomy ⟨["d"]⟩ := by decide +kernel

theorem Path.Roomy.fits {dir : Path} (h : dir.Roomy) {name : String} (hn : Path.Plain name)
    (hle : name.utf8ByteSize ≤ 33) : dir.Fits name := by
  have hlongest : (Cluster.treeName (-2147483648)).utf8ByteSize = 33 := by decide +kernel
  exact ⟨hn, Path.isUsable_join h (Cluster.treeName_dataName _).1.plain hn (by rwa [hlongest])⟩

end RefStore
