import RefStore.Failure

/-!
# Runs of tasks

`t.Gives s a s'` says that task `t`, started on `s`, ends with value `a` on `s'`. A task made of
parts gives what its parts give one after another, and a run that succeeds comes apart in the same
way. `t.Keeps P` says that a task does not leave the states `P`, however it ends, and
`t.Ends s good bad` tells the two ways of ending apart.
-/

namespace RefStore.Task

variable {σ τ ε ε' α β : Type}

def Gives (t : Task σ ε α) (s : σ) (a : α) (s' : σ) : Prop := t.start s = (.ok a, s')

namespace Gives

theorem eq {t : Task σ ε α} {s s' : σ} {a : α} (h : t.Gives s a s') : t.start s = (.ok a, s') := h

theorem unique {t : Task σ ε α} {s s' z : σ} {a b : α} (h : t.Gives s a s') (h' : t.Gives s b z) :
    a = b ∧ s' = z := by
  have he := h.eq.symm.trans h'.eq
  simp only [Prod.mk.injEq, Except.ok.injEq] at he
  exact he

theorem pure (a : α) (s : σ) : (Pure.pure a : Task σ ε α).Gives s a s := rfl

theorem state (s : σ) : (Task.state : Task σ ε σ).Gives s s s := rfl

theorem change (f : σ → σ) (s : σ) : (Task.change f : Task σ ε Unit).Gives s () (f s) := rfl

theorem ofChecked {x : Checked ε α} {a : α} (h : x = .ok a) (s : σ) :
    (Task.ofChecked x : Task σ ε α).Gives s a s := by
  rw [Gives, start_ofChecked, h]

theorem bind {t : Task σ ε α} {f : α → Task σ ε β} {s s' z : σ} {a : α} {b : β}
    (h : t.Gives s a s') (h' : (f a).Gives s' b z) : (t >>= f).Gives s b z := by
  rw [Gives, start_bind, h.eq]
  exact h'

/-- What is left of a run after its first part. -/
theorem start_bind {t : Task σ ε α} {s s' : σ} {a : α} (h : t.Gives s a s') (f : α → Task σ ε β) :
    (t >>= f).start s = (f a).start s' := by
  rw [Task.start_bind, h.eq]

theorem mapError {t : Task σ ε α} {s s' : σ} {a : α} (f : ε → ε') (h : t.Gives s a s') :
    (t.mapError f).Gives s a s' := by
  rw [Gives, start_mapError, h.eq]
  rfl

theorem attempt {t : Task σ ε α} {s s' : σ} {a : α} (h : t.Gives s a s') :
    (t.attempt : Task σ ε' (Except ε α)).Gives s (.ok a) s' := by
  rw [Gives, Task.attempt, start_ofStep, h.eq]

theorem embed [Within ε ε'] {t : Task σ ε α} {s s' : σ} {a : α} (h : t.Gives s a s') :
    (liftM t : Task σ ε' α).Gives s a s' := h.mapError Within.embed

theorem onPart [Part τ σ] {t : Task τ ε α} {s : σ} {a : α} {p : τ} (h : t.Gives (Part.get s) a p) :
    (Task.onPart t : Task σ ε α).Gives s a (Part.put p s) := by
  rw [Gives, start_onPart, h.eq]

theorem inPart [Part τ σ] [Within ε ε'] {t : Task τ ε α} {s : σ} {a : α} {p : τ}
    (h : t.Gives (Part.get s) a p) : (liftM t : Task σ ε' α).Gives s a (Part.put p s) :=
  (h.mapError Within.embed).onPart

end Gives

theorem bind_gives {t : Task σ ε α} {f : α → Task σ ε β} {s z : σ} {b : β}
    (h : (t >>= f).Gives s b z) : ∃ a s', t.Gives s a s' ∧ (f a).Gives s' b z := by
  rw [Gives, start_bind] at h
  split at h
  · next a s' ht => exact ⟨a, s', ht, h⟩
  · simp at h

theorem gives_pure {a b : α} {s s' : σ} (h : (Pure.pure a : Task σ ε α).Gives s b s') :
    b = a ∧ s' = s := by
  rw [Gives, start_pure] at h
  simp only [Prod.mk.injEq, Except.ok.injEq] at h
  exact ⟨h.1.symm, h.2.symm⟩

theorem gives_change {f : σ → σ} {s s' : σ} {u : Unit}
    (h : (change f : Task σ ε Unit).Gives s u s') : s' = f s := by
  rw [Gives, start_change] at h
  simp only [Prod.mk.injEq] at h
  exact h.2.symm

theorem gives_ofChecked {x : Checked ε α} {a : α} {s s' : σ}
    (h : (ofChecked x : Task σ ε α).Gives s a s') : x = .ok a ∧ s' = s := by
  rw [Gives, start_ofChecked] at h
  simp only [Prod.mk.injEq] at h
  exact ⟨h.1, h.2.symm⟩

theorem not_gives_refuse {e : ε} {a : α} {s s' : σ} :
    ¬ (refuse e : Task σ ε α).Gives s a s' := fun h => by
  have he : (Except.error (Failure.error e) : Checked ε α) = .ok a := congrArg Prod.fst h.eq
  cases he

theorem mapError_gives {t : Task σ ε α} {f : ε → ε'} {s s' : σ} {a : α}
    (h : (t.mapError f).Gives s a s') : t.Gives s a s' := by
  rw [Gives, start_mapError] at h
  rcases ht : t.start s with ⟨_ | b, z⟩
  · rw [ht] at h
    simp [Checked.mapError_error] at h
  · rw [ht] at h
    simp only [Checked.mapError_ok, Prod.mk.injEq, Except.ok.injEq] at h
    rw [Gives, ht, h.1, h.2]

theorem onPart_gives [Part τ σ] {t : Task τ ε α} {s s' : σ} {a : α}
    (h : (onPart t : Task σ ε α).Gives s a s') :
    ∃ p, t.Gives (Part.get s) a p ∧ s' = Part.put p s := by
  rw [Gives, start_onPart] at h
  simp only [Prod.mk.injEq] at h
  exact ⟨_, Prod.ext h.1 rfl, h.2.symm⟩

theorem embed_gives [Within ε ε'] {t : Task σ ε α} {s s' : σ} {a : α}
    (h : (liftM t : Task σ ε' α).Gives s a s') : t.Gives s a s' := mapError_gives h

theorem inPart_gives [Part τ σ] [Within ε ε'] {t : Task τ ε α} {s s' : σ} {a : α}
    (h : (liftM t : Task σ ε' α).Gives s a s') :
    ∃ p, t.Gives (Part.get s) a p ∧ s' = Part.put p s := by
  obtain ⟨p, hp, hs⟩ := onPart_gives h
  exact ⟨p, mapError_gives hp, hs⟩

theorem attempt_ok_gives {t : Task σ ε α} {a : α} {s s' : σ}
    (h : (t.attempt : Task σ ε' (Except ε α)).Gives s (.ok a) s') : t.Gives s a s' := by
  rw [Gives, attempt, start_ofStep] at h
  rw [Gives]
  rcases hr : t.start s with ⟨(cause | kind) | b, z⟩ <;> rw [hr] at h <;>
    simp only [Prod.mk.injEq, Except.ok.injEq, reduceCtorEq, false_and] at h
  rw [h.1, h.2]

/-- A failure ends the whole task. -/
theorem start_bind_error {t : Task σ ε α} {cause : Failure ε} {s s' : σ} (h : t.start s = (.error cause, s'))
    (f : α → Task σ ε β) : (t >>= f).start s = (.error cause, s') := by
  rw [start_bind, h]

theorem start_embed_error [Within ε ε'] {t : Task σ ε α} {cause : Failure ε} {s s' : σ}
    (h : t.start s = (.error cause, s')) :
    (liftM t : Task σ ε' α).start s = (.error (cause.map Within.embed), s') := by
  show ((t.start s).1.mapError Within.embed, (t.start s).2) = _
  rw [h]
  rfl

theorem start_inPart_error [Part τ σ] [Within ε ε'] {t : Task τ ε α} {cause : Failure ε} {s : σ} {p : τ}
    (h : t.start (Part.get s) = (.error cause, p)) :
    (liftM t : Task σ ε' α).start s = (.error (cause.map Within.embed), Part.put p s) := by
  show ((t.start (Part.get s)).1.mapError Within.embed, Part.put (t.start (Part.get s)).2 s) = _
  rw [h]
  rfl

def Ends (t : Task σ ε α) (s : σ) (good : α → σ → Prop) (bad : Failure ε → σ → Prop) : Prop :=
  match t.start s with
  | (.ok a, s') => good a s'
  | (.error cause, s') => bad cause s'

section

variable {t : Task σ ε α} {f : α → Task σ ε β} {s s' : σ} {a : α} {cause : Failure ε}
  {good good' : α → σ → Prop} {goodAfter : β → σ → Prop} {bad bad' : Failure ε → σ → Prop}

theorem Gives.ends (h : t.Gives s a s') (hgood : good a s') : t.Ends s good bad := by
  rw [Ends, h.eq]
  exact hgood

theorem Gives.bind_ends (h : t.Gives s a s') (hf : (f a).Ends s' goodAfter bad) :
    (t >>= f).Ends s goodAfter bad := by
  rw [Ends, h.start_bind]
  exact hf

namespace Ends

theorem error (h : t.start s = (.error cause, s')) (hbad : bad cause s') : t.Ends s good bad := by
  rw [Ends, h]
  exact hbad

theorem error_bind (h : t.start s = (.error cause, s')) (hbad : bad cause s') :
    (t >>= f).Ends s goodAfter bad := by
  rw [Ends, start_bind, h]
  exact hbad

theorem of_gives (h : t.Ends s good bad) (hg : t.Gives s a s') : good a s' := by
  rw [Ends, hg.eq] at h
  exact h

theorem of_error (h : t.Ends s good bad) (he : t.start s = (.error cause, s')) : bad cause s' := by
  rw [Ends, he] at h
  exact h

theorem mono (h : t.Ends s good bad) (hgood : ∀ a s', good a s' → good' a s')
    (hbad : ∀ cause s', bad cause s' → bad' cause s') : t.Ends s good' bad' := by
  rcases hr : t.start s with ⟨cause | a, s'⟩
  · exact .error hr (hbad cause s' (h.of_error hr))
  · have hg : t.Gives s a s' := hr
    exact hg.ends (hgood a s' (h.of_gives hg))

theorem bind (h : t.Ends s good bad)
    (hf : ∀ a s', good a s' → (f a).Ends s' goodAfter bad) : (t >>= f).Ends s goodAfter bad := by
  rcases hr : t.start s with ⟨cause | a, s'⟩
  · exact .error_bind hr (h.of_error hr)
  · have hg : t.Gives s a s' := hr
    exact hg.bind_ends (hf a s' (h.of_gives hg))

theorem onPart [Part τ σ] {t : Task τ ε α} {s : σ} {good : α → τ → Prop} {bad : Failure ε → τ → Prop}
    (h : t.Ends (Part.get s) good bad) : (Task.onPart t : Task σ ε α).Ends s
      (fun a s' => ∃ x, good a x ∧ s' = Part.put x s) fun cause s' => ∃ x, bad cause x ∧ s' = Part.put x s := by
  rw [Ends] at h
  rw [Ends, start_onPart]
  rcases hr : t.start (Part.get s) with ⟨_ | _, x⟩ <;> rw [hr] at h
  · exact ⟨x, h, rfl⟩
  · exact ⟨x, h, rfl⟩

end Ends

end

def Keeps (P : σ → Prop) (t : Task σ ε α) : Prop := ∀ s, P s → P (t.start s).2

namespace Keeps

variable {P : σ → Prop}

theorem pure (a : α) : Keeps P (Pure.pure a : Task σ ε α) := fun _ h => h

theorem state : Keeps P (Task.state : Task σ ε σ) := fun _ h => h

theorem ofChecked (x : Checked ε α) : Keeps P (Task.ofChecked x : Task σ ε α) := fun _ h => h

theorem refuse (e : ε) : Keeps P (RefStore.refuse e : Task σ ε α) := fun _ h => h

theorem halt (k : Fault) : Keeps P (RefStore.halt k : Task σ ε α) := fun _ h => h

theorem change {f : σ → σ} (h : ∀ s, P s → P (f s)) : Keeps P (Task.change f : Task σ ε Unit) := h

theorem bind {t : Task σ ε α} {f : α → Task σ ε β} (h : Keeps P t) (h' : ∀ a, Keeps P (f a)) :
    Keeps P (t >>= f) := by
  intro s hs
  rw [start_bind]
  have ht := h s hs
  rcases hr : t.start s with ⟨_ | a, z⟩ <;> rw [hr] at ht
  · exact ht
  · exact h' a z ht

/-- A guard stops a task or lets it go on. -/
theorem guarded {c : Prop} [Decidable c] {t : Task σ ε β} {rest : Task σ ε α} (stops : Keeps P t)
    (h : Keeps P rest) : Keeps P (if c then t >>= fun _ => rest else rest) := by
  split
  · exact stops.bind fun _ => h
  · exact h

theorem mapError {t : Task σ ε α} (f : ε → ε') (h : Keeps P t) : Keeps P (t.mapError f) := h

theorem embed [Within ε ε'] {t : Task σ ε α} (h : Keeps P t) :
    Keeps P (liftM t : Task σ ε' α) := h

theorem onPart [Part τ σ] (h : ∀ s (p : τ), P s → P (Part.put p s)) (t : Task τ ε α) :
    Keeps P (Task.onPart t : Task σ ε α) := fun s hs => h s _ hs

theorem inPart [Part τ σ] [Within ε ε'] (h : ∀ s (p : τ), P s → P (Part.put p s)) (t : Task τ ε α) :
    Keeps P (liftM t : Task σ ε' α) := fun s hs => h s _ hs

theorem attempt {t : Task σ ε α} (h : Keeps P t) : Keeps P (t.attempt : Task σ ε' (Except ε α)) := by
  intro s hs
  have ht := h s hs
  rw [Task.attempt, start_ofStep]
  rcases hr : t.start s with ⟨(cause | kind) | a, z⟩ <;> rw [hr] at ht <;> exact ht

/-- A task on a component keeps `P` if it keeps what `P` says about the component. -/
theorem within [Part τ σ] {Q : τ → Prop} {t : Task τ ε α} (h : Keeps Q t)
    (get : ∀ s : σ, P s → Q (Part.get s)) (put : ∀ (s : σ) (p : τ), P s → Q p → P (Part.put p s)) :
    Keeps P (Task.onPart t : Task σ ε α) := fun s hs => put s _ hs (h _ (get s hs))

theorem gives {t : Task σ ε α} (h : Keeps P t) {s s' : σ} {a : α} (hg : t.Gives s a s') (hs : P s) :
    P s' := by
  have := h s hs
  rwa [hg.eq] at this

theorem forM {xs : List α} {f : α → Task σ ε Unit} (h : ∀ x ∈ xs, Keeps P (f x)) :
    Keeps P (xs.forM f) := by
  induction xs with
  | nil => exact pure ()
  | cons x xs ih =>
    exact (h x (by simp)).bind fun _ => ih fun y hy => h y (by simp [hy])

theorem filterMapM {xs : List α} {f : α → Task σ ε (Option β)} (h : ∀ x, Keeps P (f x)) :
    Keeps P (xs.filterMapM f) := by
  induction xs with
  | nil => exact pure []
  | cons x xs ih =>
    rw [List.filterMapM_cons]
    refine (h x).bind fun b => ?_
    cases b with
    | none => exact ih
    | some b => exact ih.bind fun bs => pure (b :: bs)

end Keeps

end RefStore.Task
