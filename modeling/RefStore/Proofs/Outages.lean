import RefStore.Proofs.Tasks
import RefStore.Storage.Engine

/-!
# Tasks and outages

`t.Survives s cut a s'` says what becomes of a task on a disk that may fail at any call: the task
gives `a` on `s'`, or an outage ends it with an error and leaves a disk that satisfies `cut`. From
then on the disk does not change. Main statement: `Survives.bind`.
-/

namespace RefStore

/-- States with a disk in them. -/
class OnDisk (σ : Type) where
  disk : σ → Disk
  withDisk : Disk → σ → σ
  disk_withDisk (d : Disk) (s : σ) : disk (withDisk d s) = d
  withDisk_withDisk (d d' : Disk) (s : σ) : withDisk d (withDisk d' s) = withDisk d s
  withDisk_disk (s : σ) : withDisk (disk s) s = s

attribute [simp] OnDisk.disk_withDisk OnDisk.withDisk_withDisk OnDisk.withDisk_disk

instance : OnDisk Disk where
  disk d := d
  withDisk d _ := d
  disk_withDisk _ _ := rfl
  withDisk_withDisk _ _ _ := rfl
  withDisk_disk _ := rfl

instance : OnDisk Mounted where
  disk := Mounted.disk
  withDisk disk m := { m with disk }
  disk_withDisk _ _ := rfl
  withDisk_withDisk _ _ _ := rfl
  withDisk_disk _ := rfl

instance : OnDisk Engine where
  disk e := e.mounted.disk
  withDisk disk e := { e with mounted := { e.mounted with disk } }
  disk_withDisk _ _ := rfl
  withDisk_withDisk _ _ _ := rfl
  withDisk_disk _ := rfl

/-- A part of a state that holds the state's disk. -/
class HoldsDisk (τ σ : Type) [OnDisk τ] [OnDisk σ] [Part τ σ] : Prop where
  disk_eq (s : σ) : OnDisk.disk s = OnDisk.disk (Part.get s : τ)
  get_withDisk (d : Disk) (s : σ) :
    (Part.get (OnDisk.withDisk d s) : τ) = OnDisk.withDisk d (Part.get s)
  put_withDisk (d d' : Disk) (p : τ) (s : σ) :
    Part.put (OnDisk.withDisk d p) (OnDisk.withDisk d' s) = OnDisk.withDisk d (Part.put p s)
  disk_put (p : τ) (s : σ) : OnDisk.disk (Part.put p s) = OnDisk.disk p

instance : HoldsDisk Disk Mounted := ⟨fun _ => rfl, fun _ _ => rfl, fun _ _ _ _ => rfl, fun _ _ => rfl⟩

instance : HoldsDisk Mounted Engine := ⟨fun _ => rfl, fun _ _ => rfl, fun _ _ _ _ => rfl, fun _ _ => rfl⟩

section

variable {σ : Type} [OnDisk σ]

/-- The state with an outage ahead, or with none. -/
def withOutage (o : Option Outage) (s : σ) : σ :=
  OnDisk.withDisk { OnDisk.disk s with outage := o } s

@[simp] theorem withOutage_withOutage (o o' : Option Outage) (s : σ) :
    withOutage o (withOutage o' s) = withOutage o s := by
  simp [withOutage]

@[simp] theorem disk_withOutage (o : Option Outage) (s : σ) :
    OnDisk.disk (withOutage o s) = { OnDisk.disk s with outage := o } := by
  simp [withOutage]

theorem withOutage_eq_self {o : Option Outage} {s : σ} (h : (OnDisk.disk s).outage = o) :
    withOutage o s = s := by
  have hd : { OnDisk.disk s with outage := o } = OnDisk.disk s := by
    cases hs : OnDisk.disk s
    simp_all
  rw [withOutage, hd, OnDisk.withDisk_disk]

end

theorem Disk.effect_withOutage (o : Option Outage) (d : Disk) (call : DiskCall) :
    Disk.effect (withOutage o d) call = withOutage o (d.effect call) := by
  cases call <;> rfl

namespace Task

variable {σ τ ε ε' α β γ : Type} [OnDisk σ] [OnDisk τ]

def Survives (t : Task σ ε α) (s : σ) (cut : Disk → Prop) (a : α) (s' : σ) : Prop :=
  ∀ o : Option Outage,
    (∃ o', (o = none → o' = none) ∧ t.start (withOutage o s) = (.ok a, withOutage o' s')) ∨
      (o ≠ none ∧ ∃ e z, t.start (withOutage o s) = (.error (.error e), z) ∧
        (OnDisk.disk z).outage = some ⟨0, 0⟩ ∧ cut (OnDisk.disk z).restart)

namespace Survives

variable {cut : Disk → Prop}

/-- Without an outage the task succeeds. -/
theorem gives {t : Task σ ε α} {s s' : σ} {a : α} (h : t.Survives s cut a s')
    (hs : (OnDisk.disk s).outage = none) : t.Gives s a (withOutage none s') := by
  rcases h none with ⟨o', ho, h⟩ | ⟨h, -⟩
  · rw [ho rfl, withOutage_eq_self hs] at h
    exact h
  · exact absurd rfl h

/-- So it does on a disk that works and goes on working. -/
theorem gives_of_live {t : Task σ ε α} {s s' : σ} {a : α} (h : t.Survives s cut a s')
    (hs : (OnDisk.disk s).outage = none) (hs' : (OnDisk.disk s').outage = none) : t.Gives s a s' := by
  have hg := h.gives hs
  rwa [withOutage_eq_self hs'] at hg

/-- A task that leaves the disk alone. -/
theorem ofReads {t : Task σ ε α} {s : σ} {a : α}
    (h : ∀ o, t.start (withOutage o s) = (.ok a, withOutage o s)) : t.Survives s cut a s :=
  fun o => .inl ⟨o, id, h o⟩

theorem pure (a : α) (s : σ) : (Pure.pure a : Task σ ε α).Survives s cut a s :=
  ofReads fun _ => rfl

theorem ofChecked {x : Checked ε α} {a : α} (h : x = .ok a) (s : σ) :
    (Task.ofChecked x : Task σ ε α).Survives s cut a s :=
  ofReads fun _ => by rw [start_ofChecked, h]

theorem change {f : σ → σ} {s : σ} (h : ∀ o, f (withOutage o s) = withOutage o (f s)) :
    (Task.change f : Task σ ε Unit).Survives s cut () (f s) :=
  fun o => .inl ⟨o, id, by rw [start_change, h]⟩

theorem bind {t : Task σ ε α} {f : α → Task σ ε β} {s s' z : σ} {a : α} {b : β}
    (h : t.Survives s cut a s') (h' : (f a).Survives s' cut b z) : (t >>= f).Survives s cut b z := by
  intro o
  rcases h o with ⟨o', ho, ht⟩ | ⟨ho, e, y, ht, hd, hcut⟩
  · rcases h' o' with ⟨o'', ho', hf⟩ | ⟨ho', e, y, hf, hd, hcut⟩
    · exact .inl ⟨o'', fun hn => ho' (ho hn), by rw [start_bind, ht]; exact hf⟩
    · exact .inr ⟨fun hn => ho' (ho hn), e, y, by rw [start_bind, ht]; exact hf, hd, hcut⟩
  · exact .inr ⟨ho, e, y, by rw [start_bind, ht], hd, hcut⟩

/-- A task that looks at the state, but not at the outage. -/
theorem state {f : σ → Task σ ε β} {s z : σ} {b : β} (hf : ∀ o, f (withOutage o s) = f s)
    (h : (f s).Survives s cut b z) : ((Task.state : Task σ ε σ) >>= f).Survives s cut b z := by
  intro o
  have hs : ((Task.state : Task σ ε σ) >>= f).start (withOutage o s) =
      (f s).start (withOutage o s) := by
    rw [start_bind, start_state]
    dsimp only
    rw [hf]
  rw [hs]
  exact h o

theorem mapError {t : Task σ ε α} {s s' : σ} {a : α} (f : ε → ε') (h : t.Survives s cut a s') :
    (t.mapError f).Survives s cut a s' := by
  intro o
  rcases h o with ⟨o', ho, ht⟩ | ⟨ho, e, y, ht, hd, hcut⟩
  · exact .inl ⟨o', ho, by rw [start_mapError, ht]; rfl⟩
  · exact .inr ⟨ho, f e, y, by rw [start_mapError, ht]; rfl, hd, hcut⟩

theorem embed [Within ε ε'] {t : Task σ ε α} {s s' : σ} {a : α} (h : t.Survives s cut a s') :
    (liftM t : Task σ ε' α).Survives s cut a s' := h.mapError Within.embed

theorem onPart [Part τ σ] [HoldsDisk τ σ] {t : Task τ ε α} {s : σ} {a : α} {p : τ}
    (h : t.Survives (Part.get s) cut a p) :
    (Task.onPart t : Task σ ε α).Survives s cut a (Part.put p s) := by
  intro o
  have hget : (Part.get (withOutage o s) : τ) = withOutage o (Part.get s) := by
    rw [withOutage, HoldsDisk.get_withDisk, withOutage, HoldsDisk.disk_eq (τ := τ) s]
  have hput (o' : Option Outage) :
      Part.put (withOutage o' p) (withOutage o s) = withOutage o' (Part.put p s) := by
    rw [withOutage, withOutage, HoldsDisk.put_withDisk, withOutage, HoldsDisk.disk_put]
  rcases h o with ⟨o', ho, ht⟩ | ⟨ho, e, y, ht, hd, hcut⟩
  · exact .inl ⟨o', ho, by rw [start_onPart, hget, ht, hput]⟩
  · refine .inr ⟨ho, e, Part.put y (withOutage o s), by rw [start_onPart, hget, ht], ?_, ?_⟩
    · rw [HoldsDisk.disk_put]
      exact hd
    · rw [HoldsDisk.disk_put]
      exact hcut

theorem inPart [Part τ σ] [HoldsDisk τ σ] [Within ε ε'] {t : Task τ ε α} {s : σ} {a : α} {p : τ}
    (h : t.Survives (Part.get s) cut a p) :
    (liftM t : Task σ ε' α).Survives s cut a (Part.put p s) :=
  (h.mapError Within.embed).onPart

/-- A loop survives if each of its rounds does. `P` says what holds when a part of the list is done. -/
theorem foldlM {xs : List γ} {f : β → γ → Task σ ε β} {P : List γ → σ → Prop}
    (step : ∀ ys x zs b s, xs = ys ++ x :: zs → P ys s →
      ∃ b' s', (f b x).Survives s cut b' s' ∧ P (ys ++ [x]) s') {s : σ} (h : P [] s) (b : β) :
    ∃ b' s', (xs.foldlM f b).Survives s cut b' s' ∧ P xs s' := by
  have hrest : ∀ zs ys b s, xs = ys ++ zs → P ys s →
      ∃ b' s', (zs.foldlM f b).Survives s cut b' s' ∧ P xs s' := by
    intro zs
    induction zs with
    | nil =>
      intro ys b s hxs hs
      rw [List.append_nil] at hxs
      exact ⟨b, s, .pure b s, hxs ▸ hs⟩
    | cons x zs ih =>
      intro ys b s hxs hs
      obtain ⟨b', s', hx, hs'⟩ := step ys x zs b s hxs hs
      obtain ⟨b'', s'', hzs, hs''⟩ := ih (ys ++ [x]) b' s' (by rw [hxs]; simp) hs'
      exact ⟨b'', s'', by rw [List.foldlM_cons]; exact hx.bind hzs, hs''⟩
  exact hrest xs [] b s rfl h

theorem forM {xs : List γ} {f : γ → Task σ ε Unit} {P : List γ → σ → Prop}
    (step : ∀ ys x zs s, xs = ys ++ x :: zs → P ys s →
      ∃ s', (f x).Survives s cut () s' ∧ P (ys ++ [x]) s') {s : σ} (h : P [] s) :
    ∃ s', (xs.forM f).Survives s cut () s' ∧ P xs s' := by
  obtain ⟨_, s', hs, hP⟩ := foldlM (f := fun _ x => f x) (fun ys x zs _ s hxs hs =>
    (step ys x zs s hxs hs).elim fun s' h => ⟨(), s', h⟩) h ()
  have hloop (zs : List γ) : zs.forM f = zs.foldlM (fun _ x => f x) () := by
    induction zs with
    | nil => rfl
    | cons z zs ih =>
      show (f z >>= fun _ => zs.forM f) = _
      rw [ih]
      rfl
  exact ⟨s', hloop xs ▸ hs, hP⟩

end Survives

end Task

namespace Disk

variable {d : Disk} {call : DiskCall} {cut : Disk → Prop}

/-- A call that an outage lets through. -/
theorem perform_passed {o : Option Outage} (ho : ∀ bytes, o ≠ some ⟨0, bytes⟩) :
    ∃ o', (o = none → o' = none) ∧
      (perform call).start (withOutage o d) = (.ok (), withOutage o' (d.effect call)) := by
  rcases o with _ | ⟨calls | calls, bytes⟩
  · exact ⟨none, id, by rw [← effect_withOutage]; rfl⟩
  · exact absurd rfl (ho bytes)
  · refine ⟨some ⟨calls, bytes⟩, by simp, ?_⟩
    have hs : (perform call).start (withOutage (some ⟨calls + 1, bytes⟩) d) =
        (.ok (), { Disk.effect (withOutage (some ⟨calls + 1, bytes⟩) d) call with
          outage := some ⟨calls, bytes⟩ }) := rfl
    rw [hs, effect_withOutage]
    rfl

/-- The call that an outage cuts short. -/
theorem perform_cut (d : Disk) (call : DiskCall) (bytes : Nat) :
    (perform call).start (withOutage (some ⟨0, bytes⟩) d) =
      (refuse ⟨"device failure"⟩, withOutage (some ⟨0, 0⟩) (d.cutEffect bytes call)) := by
  have hc : Disk.cutEffect (withOutage (some ⟨0, bytes⟩) d) bytes call =
      withOutage (some ⟨0, bytes⟩) (d.cutEffect bytes call) := by
    cases call <;> simp only [cutEffect] <;> first | rfl | (split <;> rfl)
  have hs : (perform call).start (withOutage (some ⟨0, bytes⟩) d) =
      (refuse ⟨"device failure"⟩,
        { Disk.cutEffect (withOutage (some ⟨0, bytes⟩) d) bytes call with outage := some ⟨0, 0⟩ }) := rfl
  rw [hs, hc]
  rfl

/-- One call: it takes effect, or as much of it as the outage lets through. -/
theorem perform_survives (h : ∀ bytes, cut (d.cutEffect bytes call).restart) :
    (perform call).Survives d cut () (d.effect call) := by
  intro o
  by_cases ho : ∃ bytes, o = some ⟨0, bytes⟩
  · obtain ⟨bytes, rfl⟩ := ho
    exact .inr ⟨by simp, _, _, perform_cut d call bytes, rfl, h bytes⟩
  · exact .inl (perform_passed (not_exists.mp ho))

end Disk

end RefStore
