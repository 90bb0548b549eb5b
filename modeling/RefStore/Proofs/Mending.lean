import RefStore.Proofs.Overlays
import RefStore.Proofs.PagedFiles
import RefStore.Proofs.Seals
import RefStore.Storage.Recovery

/-!
# Mending a page

The log has only the stretches of a page that were written. Laid over the page as it was they make the
page as it should be, and so they do over a page that was already changed or changed in part. Main
statement: `Overlay.Mends.withSeal_eq`.
-/

namespace RefStore

namespace Page

/-- What counts of the byte at a place of a page, its seal left aside. -/
def blank (j : Nat) (b : UInt8) : UInt8 :=
  if j = 1 then b ||| PageHeader.checksumFlag else if 2 ≤ j ∧ j < 6 then 0 else b

theorem getElem?_bare {page : Page} (h : 8 ≤ page.size) (j : Nat) :
    page.bare[j]? = page.toList[j]?.map (blank j) := by
  obtain ⟨kind, flags, a, b, c, d, rest, hp⟩ := toList_fields (Nat.le_trans (by decide) h)
  rw [bare_of_toList hp, hp]
  rcases j with _ | _ | _ | _ | _ | _ | n
  iterate 6 rfl
  have hu : blank (n + 6) = id := by
    funext x
    rw [blank, if_neg (by omega), if_neg (by omega)]
    rfl
  simp [hu]

end Page

namespace Overlay

variable {o : Overlay} {p q : Page}

/-- Pages that are as the overlay's page should be wherever it has no patch. -/
structure Mends (o : Overlay) (p : Page) : Prop where
  size : p.size = o.size
  apart : ∀ j, Patch.lookup? o.patches j = none → p.bare[j]? = o.page.bare[j]?

theorem mends_base (h : o.Tidy) (hs : 8 ≤ o.size) : o.Mends o.base where
  size := rfl
  apart j hj := by
    rw [Page.getElem?_bare hs, Page.getElem?_bare (by rwa [size_page h]), getElem?_page h, hj,
      Option.none_or]

theorem mends_withSeal (h : o.Tidy) (hs : 8 ≤ o.size) : o.Mends o.page.withSeal := by
  have hpage : 6 ≤ o.page.size := by
    rw [size_page h]
    omega
  exact ⟨(Page.size_withSeal hpage).trans (size_page h), fun j _ => by rw [Page.bare_withSeal hpage]⟩

/-- Each byte is from one of two pages that are mended. -/
theorem mends_laid (hs : 8 ≤ o.size) (hp : o.Mends p) (hq : o.Mends q) (k : Nat) :
    o.Mends (Page.laid k p q) := by
  have hsize := Page.size_laid (k := k) hp.size hq.size
  refine ⟨hsize, fun j hj => ?_⟩
  have hpj := hp.apart j hj
  have hqj := hq.apart j hj
  have hlen : (q.toList.take k).length = min k o.size := by
    rw [List.length_take, Page.length_toList, hq.size]
  rw [Page.getElem?_bare (by rwa [hp.size])] at hpj
  rw [Page.getElem?_bare (by rwa [hq.size])] at hqj
  rw [Page.getElem?_bare (by rwa [hsize]), Page.toList_laid]
  by_cases hlt : j < min k o.size
  · rw [List.getElem?_append_left (by omega), List.getElem?_take_of_lt (by omega), hqj]
  · rw [List.getElem?_append_right (by omega), hlen, List.getElem?_drop, ← hpj]
    by_cases hk : k ≤ o.size
    · rw [Nat.min_eq_left hk, Nat.add_sub_cancel' (by omega)]
    · rw [List.getElem?_eq_none (by rw [Page.length_toList, hp.size]; omega),
        List.getElem?_eq_none (by rw [Page.length_toList, hp.size]; omega)]

theorem getElem?_applyTo (h : o.Tidy) (hp : p.size = o.size) (j : Nat) :
    (o.applyTo p).toList[j]? = (Patch.lookup? o.patches j).or p.toList[j]? := by
  refine Patch.getElem?_foldl_splice h.apart _ (fun r hr => ?_) j
  exact Nat.le_trans (h.inside r hr) (Nat.le_of_eq hp.symm)

theorem size_applyTo (h : o.Tidy) (hp : p.size = o.size) : (o.applyTo p).size = o.size := by
  refine (Patch.size_foldl_splice _ fun r hr => ?_).trans hp
  exact Nat.le_trans (h.inside r hr) (Nat.le_of_eq hp.symm)

namespace Mends

/-- The patches make of any such page the page that was meant. -/
theorem withSeal_eq (h : o.Tidy) (hs : 8 ≤ o.size) (hp : o.Mends p) :
    (o.applyTo p).withSeal = o.page.withSeal := by
  have hsize := size_applyTo h hp.size
  refine Page.Alike.withSeal_eq ⟨hsize.trans (size_page h).symm, List.ext_getElem? fun j => ?_⟩
  rw [Page.getElem?_bare (by rwa [hsize]), getElem?_applyTo h hp.size]
  cases hj : Patch.lookup? o.patches j with
  | none =>
    rw [Option.none_or, ← Page.getElem?_bare (by rwa [hp.size])]
    exact hp.apart j hj
  | some b =>
    rw [Page.getElem?_bare (by rwa [size_page h]), getElem?_page h, hj]
    rfl

end Mends

theorem splices_eq {ps : List Patch} (hp : ∀ r ∈ ps, r.stop ≤ p.size) (hs : p.size < 4294967296) :
    (ps.map fun r => (⟨UInt32.ofNat r.offset, Block.toList r.bytes⟩ : LogRange)).foldlM
      Recovery.layRange p = .ok ⟨ps.foldl (fun b r => Block.splice b r.offset r.bytes) p.bytes⟩ := by
  induction ps generalizing p with
  | nil => rfl
  | cons r ps ih =>
    have hr : r.offset + r.bytes.size ≤ p.size := hp r List.mem_cons_self
    have hoff : (UInt32.ofNat r.offset).toNat = r.offset := UInt32.toNat_ofNat_of_lt' (by
      simp only [UInt32.size]
      omega)
    have hsize : (⟨Block.splice p.bytes r.offset r.bytes⟩ : Page).size = p.size :=
      Block.size_splice _ _ _ hr
    have hlay : Recovery.layRange p ⟨UInt32.ofNat r.offset, Block.toList r.bytes⟩ =
        .ok ⟨Block.splice p.bytes r.offset r.bytes⟩ := by
      simp only [Recovery.layRange, hoff, Block.length_toList, if_pos hr, Page.write,
        Block.ofList_toList]
    rw [List.map_cons, List.foldlM_cons, hlay]
    refine (ih fun r' hr' => ?_) ?_
    · rw [hsize]
      exact hp r' (List.mem_cons_of_mem _ hr')
    · rwa [hsize]

/-- The ranges of a log record say what the overlay does. -/
theorem layRanges_eq (h : o.Tidy) (hp : p.size = o.size) (hs : o.size < 4294967296) :
    (o.patches.map fun r => (⟨UInt32.ofNat r.offset, Block.toList r.bytes⟩ : LogRange)).foldlM
      Recovery.layRange p = .ok (o.applyTo p) := by
  refine splices_eq (fun r hr => ?_) (by rwa [hp])
  exact Nat.le_trans (h.inside r hr) (Nat.le_of_eq hp.symm)

end Overlay

end RefStore
