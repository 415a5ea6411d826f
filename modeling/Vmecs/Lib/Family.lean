import Mathlib.Logic.Function.Basic
import Vmecs.Lib.Run

/-!
# Families of systems

Systems of one kind that run side by side under names. A system may join under a name that was never
used, a member may take a step, and nothing else happens to either; so the members do not know of
each other, and what happens in a family is an interleaving of what happens to its members.

`Run.member` is that in a statement: in every run of a family, a member has joined once, and its own
events, in their order, are a run from the state in which it joined to the state in which it is.
-/

universe u v w

/-- What happens in a family: nothing, a system joins, or a member takes a step. -/
inductive FamilyEvent (ι : Type u) (σ : Type v) (ε : Type w) where
  | idle
  | join (i : ι) (s : σ)
  | move (i : ι) (e : ε)

variable {ι : Type u} {σ : Type v} {ε : Type w} [DecidableEq ι]

namespace FamilyEvent

/-- The state in which a system joins under a name. -/
def joins (i : ι) : FamilyEvent ι σ ε → Option σ
  | join j s => if j = i then some s else none
  | _ => none

/-- The event of a member. -/
def moves (i : ι) : FamilyEvent ι σ ε → Option ε
  | move j e => if j = i then some e else none
  | _ => none

variable {i j : ι} {s : σ} {e : ε}

@[simp] theorem joins_idle : (idle : FamilyEvent ι σ ε).joins i = none := rfl

@[simp] theorem moves_idle : (idle : FamilyEvent ι σ ε).moves i = none := rfl

@[simp] theorem joins_move : (move j e : FamilyEvent ι σ ε).joins i = none := rfl

@[simp] theorem moves_join : (join j s : FamilyEvent ι σ ε).moves i = none := rfl

@[simp] theorem joins_join_self : (join i s : FamilyEvent ι σ ε).joins i = some s := if_pos rfl

@[simp] theorem moves_move_self : (move i e : FamilyEvent ι σ ε).moves i = some e := if_pos rfl

theorem joins_join_of_ne (hne : j ≠ i) : (join j s : FamilyEvent ι σ ε).joins i = none := if_neg hne

theorem moves_move_of_ne (hne : j ≠ i) : (move j e : FamilyEvent ι σ ε).moves i = none := if_neg hne

/-- The state in which a system has joined is that of an event. -/
theorem mem_of_joins {es : List (FamilyEvent ι σ ε)} (h : es.filterMap (·.joins i) = [s]) :
    join i s ∈ es := by
  obtain ⟨e, he, hjoin⟩ := List.mem_filterMap.1 (h ▸ List.mem_singleton_self s)
  rcases e with _ | ⟨j, s'⟩ | _
  · exact absurd hjoin (by simp)
  · rcases eq_or_ne j i with rfl | hne
    · obtain rfl := Option.some.inj (joins_join_self.symm.trans hjoin)
      exact he
    · exact absurd ((joins_join_of_ne hne).symm.trans hjoin) (by simp)
  · exact absurd hjoin (by simp)

end FamilyEvent

/-- A step of a family whose members take the steps `step`. -/
inductive FamilyStep (step : σ → ε → σ → Prop) (f : ι → Option σ) :
    FamilyEvent ι σ ε → (ι → Option σ) → Prop where
  | idle : FamilyStep step f .idle f
  | join {i : ι} {s : σ} (hi : f i = none) :
    FamilyStep step f (.join i s) (Function.update f i (some s))
  | move {i : ι} {s s' : σ} {e : ε} (hi : f i = some s) (hstep : step s e s') :
    FamilyStep step f (.move i e) (Function.update f i (some s'))

/-- What a family has been through, seen from a name: nothing, or a system has joined under it once
and has run from there. -/
inductive MemberOf (step : σ → ε → σ → Prop) (i : ι) (es : List (FamilyEvent ι σ ε)) :
    Option σ → Prop where
  | absent (hjoins : es.filterMap (·.joins i) = []) (hmoves : es.filterMap (·.moves i) = []) :
    MemberOf step i es none
  | present {s₀ s : σ} (hjoins : es.filterMap (·.joins i) = [s₀])
    (hrun : Run step s₀ (es.filterMap (·.moves i)) s) : MemberOf step i es (some s)

namespace MemberOf

variable {step : σ → ε → σ → Prop} {i : ι} {es : List (FamilyEvent ι σ ε)}

/-- An event that is not the member's. -/
theorem snoc_of_none {o : Option σ} (h : MemberOf step i es o) {e : FamilyEvent ι σ ε}
    (hjoins : e.joins i = none) (hmoves : e.moves i = none) : MemberOf step i (es ++ [e]) o := by
  have hj : (es ++ [e]).filterMap (·.joins i) = es.filterMap (·.joins i) := by simp [hjoins]
  have hm : (es ++ [e]).filterMap (·.moves i) = es.filterMap (·.moves i) := by simp [hmoves]
  rcases h with ⟨hjoins, hmoves⟩ | ⟨hjoins, hrun⟩
  · exact .absent (hj.trans hjoins) (hm.trans hmoves)
  · exact .present (hj.trans hjoins) (hm ▸ hrun)

theorem snoc_join (h : MemberOf step i es none) (s : σ) :
    MemberOf step i (es ++ [.join i s]) (some s) := by
  rcases h with ⟨hjoins, hmoves⟩
  have hjoin : (es ++ [(.join i s : FamilyEvent ι σ ε)]).filterMap (·.joins i) = [s] := by
    simp [hjoins]
  refine .present hjoin ?_
  rw [List.filterMap_append, hmoves]
  exact .nil

theorem snoc_move {s s' : σ} (h : MemberOf step i es (some s)) {e : ε} (hstep : step s e s') :
    MemberOf step i (es ++ [.move i e]) (some s') := by
  rcases h with _ | ⟨hjoins, hrun⟩
  refine .present (by simpa [List.filterMap_cons] using hjoins) ?_
  rw [List.filterMap_append]
  have hmove : [FamilyEvent.move i e].filterMap (fun x : FamilyEvent ι σ ε ↦ x.moves i) = [e] := by
    simp
  exact hmove ▸ hrun.snoc hstep

/-- A member has joined once, and its events are a run from there. -/
theorem exists_run {s : σ} (h : MemberOf step i es (some s)) :
    ∃ s₀, es.filterMap (·.joins i) = [s₀] ∧ Run step s₀ (es.filterMap (·.moves i)) s := by
  rcases h with _ | ⟨hjoins, hrun⟩
  exact ⟨_, hjoins, hrun⟩

/-- Only a member takes steps. -/
theorem exists_of_mem {o : Option σ} (h : MemberOf step i es o) {e : ε} (he : .move i e ∈ es) :
    ∃ s, o = some s := by
  rcases h with ⟨-, hmoves⟩ | _
  · have hmem : e ∈ es.filterMap (·.moves i) :=
      List.mem_filterMap.2 ⟨_, he, FamilyEvent.moves_move_self⟩
    exact absurd (hmoves ▸ hmem) List.not_mem_nil
  · exact ⟨_, rfl⟩

end MemberOf

/-- **The members of a family run on their own**: in every run, what happens under a name is that a
system joins, once, and runs from there. -/
theorem Run.member {step : σ → ε → σ → Prop} {es : List (FamilyEvent ι σ ε)} {f : ι → Option σ}
    (h : Run (FamilyStep step) (fun _ ↦ none) es f) (i : ι) : MemberOf step i es (f i) := by
  refine h.invariant (I := fun es f ↦ MemberOf step i es (f i)) (.absent rfl rfl) ?_
  rintro es f e f' ih hstep
  rcases hstep with _ | @⟨j, s, hj⟩ | @⟨j, s, s', e, hj, hstep⟩
  · exact ih.snoc_of_none rfl rfl
  · rcases eq_or_ne j i with rfl | hne
    · rw [Function.update_self]
      exact (hj ▸ ih).snoc_join s
    · rw [Function.update_of_ne hne.symm]
      exact ih.snoc_of_none (FamilyEvent.joins_join_of_ne hne) rfl
  · rcases eq_or_ne j i with rfl | hne
    · rw [Function.update_self]
      exact (hj ▸ ih).snoc_move hstep
    · rw [Function.update_of_ne hne.symm]
      exact ih.snoc_of_none rfl (FamilyEvent.moves_move_of_ne hne)
