import RefStore.Proofs.DataNames
import RefStore.Proofs.Numerals

/-!
# Clusters by the names of their files

The name of a tree file tells its cluster, and that of a size map is not taken for one. Beside the name of a
tree, the names that spell the number of its cluster in another way are taken for it too. Main statements:
`Cluster.ofTreeFileName?_treeName`, `Cluster.ofTreeFileName?_sizesName` and `Cluster.fileNames_exact`.
-/

namespace RefStore

namespace Cluster

variable {name : String} {c : ClusterId}

/-- What stands between the stem and the extension of a tree is read as a number. -/
theorem ofTreeFileName?_append (rest : List Char) : ofTreeFileName? (stem ++ String.ofList rest) =
    if Tree.extension.toList <:+ rest then
      Decimal.int32? (rest.take (rest.length - Tree.extension.toList.length))
    else none := by
  have hlist : (stem ++ String.ofList rest).toList = stem.toList ++ rest := by
    rw [String.toList_append, String.toList_ofList]
  have hstem : stem.toList.isPrefixOf (stem.toList ++ rest) = true :=
    List.isPrefixOf_iff_prefix.mpr (List.prefix_append _ _)
  rw [ofTreeFileName?]
  simp only [hlist, List.drop_left, hstem, true_and, List.isSuffixOf_iff_suffix]

theorem exists_rest (h : ofTreeFileName? name = some c) : ∃ rest, name = stem ++ String.ofList rest := by
  rw [ofTreeFileName?] at h
  split at h
  · next hends =>
    obtain ⟨rest, hrest⟩ := List.isPrefixOf_iff_prefix.mp hends.1
    refine ⟨rest, ?_⟩
    rw [← String.toList_inj, String.toList_append, String.toList_ofList, hrest]
  · cases h

theorem ofTreeFileName?_eq_some_iff : ofTreeFileName? name = some c ↔
    ∃ spelling, Decimal.int32? spelling = some c ∧ name = stem ++ String.ofList spelling ++ Tree.extension := by
  constructor
  · intro h
    obtain ⟨rest, rfl⟩ := exists_rest h
    rw [ofTreeFileName?_append] at h
    split at h
    · next hsuffix =>
      obtain ⟨spelling, rfl⟩ := hsuffix
      rw [List.length_append, Nat.add_sub_cancel, List.take_left] at h
      refine ⟨spelling, h, ?_⟩
      rw [String.ofList_append, String.ofList_toList, String.append_assoc]
    · cases h
  · rintro ⟨spelling, h, rfl⟩
    have hjoin : stem ++ String.ofList spelling ++ Tree.extension =
        stem ++ String.ofList (spelling ++ Tree.extension.toList) := by
      rw [String.ofList_append, String.ofList_toList, String.append_assoc]
    rw [hjoin, ofTreeFileName?_append, if_pos (List.suffix_append _ _), List.length_append, Nat.add_sub_cancel,
      List.take_left, h]

theorem ofTreeFileName?_treeName (c : ClusterId) : ofTreeFileName? (treeName c) = some c :=
  ofTreeFileName?_eq_some_iff.mpr ⟨_, Decimal.int32?_ofInt c, rfl⟩

theorem ofTreeFileName?_sizesName (c : ClusterId) : ofTreeFileName? (sizesName c) = none := by
  rw [Option.eq_none_iff_forall_ne_some]
  intro d h
  obtain ⟨spelling, -, hname⟩ := ofTreeFileName?_eq_some_iff.mp h
  have hlist := congrArg String.toList hname
  rw [toList_sizesName, String.toList_append] at hlist
  exact absurd (List.append_inj_right' hlist (by decide)) (by decide)

/-- Clusters are told by the names of their files. A name is taken for the tree of a cluster if it is the name
of that tree, or differs from it by another spelling of the number. -/
theorem fileNames_exact :
    (∀ c, treeName c = componentName c ++ ".grb" ∧ sizesName c = componentName c ++ ".grs") ∧
    (∀ c, ofTreeFileName? (treeName c) = some c) ∧ (∀ c, ofTreeFileName? (sizesName c) = none) ∧
    Function.Injective treeName ∧ Function.Injective sizesName ∧ (∀ c d, treeName c ≠ sizesName d) ∧
    ∀ name c, ofTreeFileName? name = some c ↔
      name = treeName c ∨
        ∃ spelling, Decimal.Respells c.toInt spelling ∧ name = stem ++ String.ofList spelling ++ ".grb" := by
  refine ⟨fun c => ⟨rfl, rfl⟩, ofTreeFileName?_treeName, ofTreeFileName?_sizesName, treeName_injective,
    sizesName_injective, treeName_ne_sizesName, ?_⟩
  intro name c
  have hname : treeName c = stem ++ String.ofList (Decimal.ofInt c.toInt) ++ Tree.extension := rfl
  rw [ofTreeFileName?_eq_some_iff, hname]
  simp only [Decimal.int32?_eq_some_iff, Decimal.signed?_eq_some_iff, or_and_right, exists_or, exists_eq_left]
  rfl

/-- A padded negative zero names the tree of cluster 0, and a plus that of the largest one. -/
theorem fileNames_exact_respelled :
    ofTreeFileName? "global_collection_-00.grb" = some 0 ∧
      ofTreeFileName? "global_collection_+2147483647.grb" = some Int32.maxValue := by
  obtain ⟨-, -, -, -, -, -, hiff⟩ := fileNames_exact
  constructor
  · exact (hiff _ 0).mpr (.inr ⟨_, .paddedMinus 0 0, by decide +kernel⟩)
  · exact (hiff _ Int32.maxValue).mpr (.inr ⟨_, .plus 2147483647 0, by decide +kernel⟩)

end Cluster

end RefStore
