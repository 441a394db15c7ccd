import Mathlib.Data.Finset.Card
import Mathlib.Order.Defs.Unbundled
/-!
# Cursors

A cursor finds one item a call and keeps in its state which one it found last. If each call finds
the first of the items that come after the last one, the calls visit every item once, in order,
and then find nothing.
-/

namespace Fly2040.Cursors

variable {κ σ : Type}

/-- Calls of a cursor until it finds nothing: the items found, and the state that is left. -/
inductive Visits (find : σ → Option κ × σ) : σ → List κ → σ → Prop
  /-- Nothing is found. -/
  | done {state : σ} (nothing : (find state).1 = none) : Visits find state [] (find state).2
  /-- An item is found, and others after it. -/
  | more {state final : σ} {item : κ} {found : List κ} (first : (find state).1 = some item)
    (rest : Visits find (find state).2 found final) : Visits find state (item :: found) final

/-- The item comes after the last one, if there was one. -/
def After (before : κ → κ → Prop) (last : Option κ) (item : κ) : Prop :=
  ∀ prev ∈ last, before prev item

/-- Each call finds the first of the items that come after the last one. -/
structure Follows (before : κ → κ → Prop) (items : Finset κ) (knows : Option κ → σ → Prop)
    (find : σ → Option κ × σ) : Prop where
  /-- Nothing is found only if no item comes after the last one. -/
  nothing : ∀ last state, knows last state → (find state).1 = none →
    ∀ item ∈ items, ¬ After before last item
  /-- What is found is an item. -/
  mem : ∀ last state item, knows last state → (find state).1 = some item → item ∈ items
  /-- It comes after the last one. -/
  after : ∀ last state item, knows last state → (find state).1 = some item →
    After before last item
  /-- It is the first of them. -/
  first : ∀ last state item, knows last state → (find state).1 = some item →
    ∀ other ∈ items, After before last other → other = item ∨ before item other
  /-- The state knows it. -/
  knows : ∀ last state item, knows last state → (find state).1 = some item →
    knows (some item) (find state).2

section Rules

variable {find : σ → Option κ × σ} {before : κ → κ → Prop} {items : Finset κ}
  {knows : Option κ → σ → Prop} {last : Option κ} {state : σ}

/-- What comes after an item that comes after the last one does so, too. -/
theorem After.trans [IsTrans κ before] {item other : κ} (here : After before last item)
    (next : before item other) : After before last other :=
  fun prev member => IsTrans.trans _ _ _ (here prev member) next

/-- The calls visit every item after the last one, in order, and then find nothing. -/
theorem Follows.visits [IsTrans κ before] [Std.Irrefl before]
    (follows : Follows before items knows find) (known : knows last state) :
    ∃ found final, Visits find state found final ∧ found.Pairwise before ∧
      ∀ item, item ∈ found ↔ item ∈ items ∧ After before last item := by
  classical
  -- by the number of items that are left
  generalize left : (items.filter (After before last)).card = count
  induction count using Nat.strong_induction_on generalizing last state with
  | _ count ih =>
    cases result : (find state).1 with
    | none =>
      have none := follows.nothing last state known result
      refine ⟨[], _, .done result, List.Pairwise.nil, fun item => ?_⟩
      exact iff_of_false List.not_mem_nil fun given => none item given.1 given.2
    | some item =>
      have member := follows.mem last state item known result
      have here := follows.after last state item known result
      have first := follows.first last state item known result
      have narrower : ∀ other, After before (some item) other → After before last other :=
        fun other next => here.trans (next item rfl)
      have fewer : (items.filter (After before (some item))).card < count := by
        rw [← left]
        apply Finset.card_lt_card
        refine Finset.ssubset_iff_of_subset ?_ |>.mpr ⟨item, ?_, ?_⟩
        · intro other listed
          rw [Finset.mem_filter] at listed ⊢
          exact ⟨listed.1, narrower other listed.2⟩
        · exact Finset.mem_filter.mpr ⟨member, here⟩
        · intro listed
          exact Std.Irrefl.irrefl item ((Finset.mem_filter.mp listed).2 item rfl)
      obtain ⟨found, final, visits, sorted, members⟩ :=
        ih _ fewer (follows.knows last state item known result) rfl
      refine ⟨item :: found, final, .more result visits, ?_, fun other => ?_⟩
      · exact List.Pairwise.cons (fun other listed => ((members other).mp listed).2 item rfl) sorted
      · rw [List.mem_cons, members]
        constructor
        · intro listed
          rcases listed with rfl | later
          · exact ⟨member, here⟩
          · exact ⟨later.1, narrower other later.2⟩
        · intro given
          rcases first other given.1 given.2 with same | next
          · exact .inl same
          · refine .inr ⟨given.1, fun prev known => ?_⟩
            cases known
            exact next

end Rules

end Fly2040.Cursors
