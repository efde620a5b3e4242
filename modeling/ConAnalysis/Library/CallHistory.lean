import ConAnalysis.Library.CallSweep
import Mathlib.Data.Set.Insert

/-! What a run has behind it at one of its points: the points that have been
passed, also in callees that have returned, and the points from which the
callees that are still being analysed were entered. -/
namespace CallSweep
namespace Analyzer
variable {Call Item Locals State Result Fault : Type}
variable (A : Analyzer Call Item Locals State Result Fault)

/-- The points with a next item that follow a point. -/
def ahead (p : Point Call Item Locals State) : Set (Point Call Item Locals State) :=
  {q | A.Reaches p q ∧ q.items ≠ []}

def visited (call : Call) (s : State) : Set (Point Call Item Locals State) :=
  {q | A.Visits call s q ∧ q.items ≠ []}

/-- The point itself and, if a callee is entered there, the points of its
analysis. -/
def passed (p : Point Call Item Locals State) : Set (Point Call Item Locals State) :=
  {q | q = p ∨ ∃ item items callee l s, p.items = item :: items ∧
    A.visit p.call item p.locals p.state = .ok (.enter callee l s) ∧ q ∈ A.visited callee s}

/-- The way from `p` to a point, with the points at which the active callees
were entered (the latest first) and all points that have been passed. -/
inductive Path (p : Point Call Item Locals State) : List (Point Call Item Locals State) →
    Set (Point Call Item Locals State) → Point Call Item Locals State → Prop where
  | refl : Path p [] ∅ p
  | handles {chain : List (Point Call Item Locals State)} {q r : Point Call Item Locals State}
      {past : Set (Point Call Item Locals State)} (prior : Path p chain past q)
      (last : A.Handles q r) : Path p chain (past ∪ A.passed q) r
  | enters {chain : List (Point Call Item Locals State)} {q r : Point Call Item Locals State}
      {past : Set (Point Call Item Locals State)} (prior : Path p chain past q)
      (last : A.Enters q r) : Path p (q :: chain) (insert q past) r

section History
variable {A} {call callee : Call} {item : Item} {items : List Item} {l l₁ l₂ : Locals}
variable {s s₁ s₂ : State} {p q : Point Call Item Locals State}
variable {chain : List (Point Call Item Locals State)} {past : Set (Point Call Item Locals State)}

theorem Path.reaches (h : A.Path p chain past q) : A.Reaches p q := by
  induction h with
  | refl => exact .refl
  | handles _ last ih => exact ih.tail (.inl last)
  | enters _ last ih => exact ih.tail (.inr last)

/-- The active callees were entered at points that have been passed. -/
theorem Path.chain_subset (h : A.Path p chain past q) : ∀ y ∈ chain, y ∈ past := by
  induction h with
  | refl => simp
  | handles _ _ ih => exact fun y hy => .inl (ih y hy)
  | enters _ _ ih =>
      intro y hy
      rcases List.mem_cons.mp hy with rfl | hy
      · exact Set.mem_insert ..
      · exact Set.mem_insert_of_mem _ (ih y hy)

/-- The function at hand was entered at the first point of the chain. -/
theorem Path.entered_at (h : A.Path p chain past q) :
    (chain = [] ∧ q.call = p.call) ∨ ∃ y rest item items l s, chain = y :: rest ∧
      y.items = item :: items ∧ A.visit y.call item y.locals y.state = .ok (.enter q.call l s) := by
  induction h with
  | refl => exact .inl ⟨rfl, rfl⟩
  | handles _ last ih => cases last <;> exact ih
  | enters _ last =>
      cases last with
      | body visited => exact .inr ⟨_, _, _, _, _, _, rfl, rfl, visited⟩

/-- Sweeps are determined by where they start, so that one may speak of what comes out of a
call. -/
theorem Sweeps.deterministic (h : A.Sweeps call items l s l₁ s₁)
    (h' : A.Sweeps call items l s l₂ s₂) : l₁ = l₂ ∧ s₁ = s₂ := by
  induction h generalizing l₂ s₂ with
  | nil =>
      cases h'
      exact ⟨rfl, rfl⟩
  | done visited _ ih =>
      cases h' with
      | done visited' rest =>
          cases visited.symm.trans visited'
          exact ih rest
      | returned visited' => cases visited.symm.trans visited'
      | entered visited' => cases visited.symm.trans visited'
  | returned visited started _ ih =>
      cases h' with
      | done visited' => cases visited.symm.trans visited'
      | returned visited' started' rest =>
          cases visited.symm.trans visited'
          cases started.symm.trans started'
          exact ih rest
      | entered visited' started' =>
          cases visited.symm.trans visited'
          cases started.symm.trans started'
  | entered visited started _ _ ihBody ihRest =>
      cases h' with
      | done visited' => cases visited.symm.trans visited'
      | returned visited' started' =>
          cases visited.symm.trans visited'
          cases started.symm.trans started'
      | entered visited' started' swept rest =>
          cases visited.symm.trans visited'
          cases started.symm.trans started'
          obtain ⟨rfl, rfl⟩ := ihBody swept
          exact ihRest rest

theorem Runs.deterministic {result result' : Result} (h : A.Runs call s result s₁)
    (h' : A.Runs call s result' s₂) : result = result' ∧ s₁ = s₂ := by
  cases h with
  | returned started =>
      cases h' with
      | returned started' =>
          cases started.symm.trans started'
          exact ⟨rfl, rfl⟩
      | swept started' => cases started.symm.trans started'
  | swept started sweeps =>
      cases h' with
      | returned started' => cases started.symm.trans started'
      | swept started' sweeps' =>
          cases started.symm.trans started'
          obtain ⟨rfl, rfl⟩ := sweeps.deterministic sweeps'
          exact ⟨rfl, rfl⟩

theorem ahead_nil : A.ahead ⟨call, [], l, s⟩ = ∅ := by
  ext q
  simp only [ahead, Set.mem_ofPred_eq, Set.mem_empty_iff_false, iff_false, not_and, ne_eq,
    not_not]
  intro h
  rcases Relation.ReflTransGen.cases_head h with rfl | ⟨r, first | first, -⟩
  · rfl
  · cases first
  · cases first

/-- An item that is done in one step passes its own point only. -/
theorem passed_of_done (visited : A.visit call item l s = .ok (.done l₁ s₁)) :
    A.passed ⟨call, item :: items, l, s⟩ = {⟨call, item :: items, l, s⟩} := by
  ext q
  simp only [passed, Set.mem_ofPred_eq, Set.mem_singleton_iff, or_iff_left_iff_imp]
  rintro ⟨_, _, callee, l', s', hItems, visited', -⟩
  cases hItems
  cases visited.symm.trans visited'

/-- An item that enters a callee also passes the points of that call. -/
theorem passed_of_enter (visited : A.visit call item l s = .ok (.enter callee l₁ s₁)) :
    A.passed ⟨call, item :: items, l, s⟩ =
      insert ⟨call, item :: items, l, s⟩ (A.visited callee s₁) := by
  ext q
  simp only [passed, Set.mem_ofPred_eq, Set.mem_insert_iff]
  refine or_congr_right ⟨?_, fun hq => ⟨_, _, _, _, _, rfl, visited, hq⟩⟩
  rintro ⟨_, _, callee', l', s', hItems, visited', hq⟩
  cases hItems
  cases visited.symm.trans visited'
  exact hq

/-- A call visits what is ahead of its first item. -/
theorem visited_of_body (started : A.start call s = .ok (.body items l s₁)) :
    A.visited call s = A.ahead ⟨call, items, l, s₁⟩ := by
  ext q
  constructor
  · rintro ⟨⟨items', l', s', started', hReach⟩, hItems⟩
    cases started.symm.trans started'
    exact ⟨hReach, hItems⟩
  · rintro ⟨hReach, hItems⟩
    exact ⟨⟨_, _, _, started, hReach⟩, hItems⟩

theorem visited_of_returned {result : Result}
    (started : A.start call s = .ok (.returned result s₁)) : A.visited call s = ∅ := by
  ext q
  simp only [visited, Set.mem_ofPred_eq, Set.mem_empty_iff_false, iff_false, not_and]
  rintro ⟨items', l', s', started', -⟩
  cases started.symm.trans started'

/-- What follows a point that moves on: what it passes, and what follows then. -/
theorem ahead_of_handles (h : A.Handles p q) : A.ahead p = A.passed p ∪ A.ahead q := by
  ext r
  simp only [ahead, Set.mem_ofPred_eq, Set.mem_union]
  constructor
  · rintro ⟨hReach, hItems⟩
    rcases Relation.ReflTransGen.cases_head hReach with rfl | ⟨q', first, hRest⟩
    · exact .inl (.inl rfl)
    · rcases first with first | ⟨visited, started⟩
      · cases h with
        | done visited =>
            cases first with
            | done visited' =>
                cases visited.symm.trans visited'
                exact .inr ⟨hRest, hItems⟩
            | called visited' => cases visited.symm.trans visited'
        | called visited analysed =>
            cases first with
            | done visited' => cases visited.symm.trans visited'
            | called visited' analysed' =>
                cases visited.symm.trans visited'
                obtain ⟨rfl, rfl⟩ := analysed.deterministic analysed'
                exact .inr ⟨hRest, hItems⟩
      · exact .inl (.inr ⟨_, _, _, _, _, rfl, visited, ⟨_, _, _, started, hRest⟩, hItems⟩)
  · rintro ((rfl | ⟨item, items, callee, l, s, hEq, visited, hVisits, hItems⟩) | ⟨hReach, hItems⟩)
    · refine ⟨.refl, ?_⟩
      cases h <;> simp
    · obtain ⟨call, _, l', s'⟩ := p
      cases hEq
      exact ⟨hVisits.of_enter visited, hItems⟩
    · exact ⟨.head (.inl h) hReach, hItems⟩

end History

/-- A relation between the points that have been passed and the state, which every
part of an analysis keeps up when it adds its own point. -/
structure Chronicles (Good : Call → Item → Prop)
    (I : Set (Point Call Item Locals State) → State → Prop) : Prop where
  done : ∀ {past call item items l s l' s'}, Good call item → I past s →
    A.visit call item l s = .ok (.done l' s') → I (insert ⟨call, item :: items, l, s⟩ past) s'
  returned : ∀ {past call item items l s callee l' s' result s''}, Good call item → I past s →
    A.visit call item l s = .ok (.enter callee l' s') →
    A.start callee s' = .ok (.returned result s'') →
    I (insert ⟨call, item :: items, l, s⟩ past) s''
  body : ∀ {past call item items l s callee l' s' body lb s''}, Good call item → I past s →
    A.visit call item l s = .ok (.enter callee l' s') →
    A.start callee s' = .ok (.body body lb s'') →
    I (insert ⟨call, item :: items, l, s⟩ past) s''
  leave : ∀ {past call item l s callee l' s' result s''}, Good call item → I past s'' →
    A.visit call item l s = .ok (.enter callee l' s') → A.Runs callee s' result s'' →
    I past (A.leave callee item result s'')

/-- The same, where a return from a callee may look back at the point at which the callee was
entered. -/
structure Annals (Good : Call → Item → Prop)
    (I : Set (Point Call Item Locals State) → State → Prop) : Prop where
  done : ∀ {past call item items l s l' s'}, Good call item → I past s →
    A.visit call item l s = .ok (.done l' s') → I (insert ⟨call, item :: items, l, s⟩ past) s'
  returned : ∀ {past call item items l s callee l' s' result s''}, Good call item → I past s →
    A.visit call item l s = .ok (.enter callee l' s') →
    A.start callee s' = .ok (.returned result s'') →
    I (insert ⟨call, item :: items, l, s⟩ past) s''
  body : ∀ {past call item items l s callee l' s' body lb s''}, Good call item → I past s →
    A.visit call item l s = .ok (.enter callee l' s') →
    A.start callee s' = .ok (.body body lb s'') →
    I (insert ⟨call, item :: items, l, s⟩ past) s''
  leave : ∀ {past call item items l s callee l' s' result s''}, Good call item → I past s →
    A.visit call item l s = .ok (.enter callee l' s') → A.Runs callee s' result s'' →
    I (past ∪ A.passed ⟨call, item :: items, l, s⟩) s'' →
    I (past ∪ A.passed ⟨call, item :: items, l, s⟩) (A.leave callee item result s'')

/-- A law kept by every step is one kept by every step that is followed to its end. -/
theorem Chronicles.annals {A : Analyzer Call Item Locals State Result Fault}
    {Good : Call → Item → Prop} {I : Set (Point Call Item Locals State) → State → Prop}
    (hI : A.Chronicles Good I) : A.Annals Good I where
  done := hI.done
  returned := hI.returned
  body := hI.body
  leave hGood _ visited analysed hCallee := hI.leave hGood hCallee visited analysed

namespace Annals
variable {A} {Good : Call → Item → Prop} {I : Set (Point Call Item Locals State) → State → Prop}
variable (hGood : A.Supplies Good) (hI : A.Annals Good I)
include hGood hI

/-- Run rule for a sweep: the law holds behind it, with the points that it passed added to the
past. -/
theorem sweeps {call : Call} {items : List Item} {l l' : Locals} {s s' : State}
    (past : Set (Point Call Item Locals State)) (hItems : ∀ item ∈ items, Good call item)
    (hs : I past s) (h : A.Sweeps call items l s l' s') :
    I (past ∪ A.ahead ⟨call, items, l, s⟩) s' := by
  induction h generalizing past with
  | nil => rwa [ahead_nil, Set.union_empty]
  | @done call item items l l₁ l₂ s s₁ s₂ visited _ ih =>
      rw [List.forall_mem_cons] at hItems
      have hDone : I (insert ⟨call, item :: items, l, s⟩ past) s₁ :=
        hI.done hItems.1 hs visited
      rw [ahead_of_handles (.done visited), passed_of_done visited, ← Set.union_assoc,
        Set.union_singleton]
      exact ih _ hItems.2 hDone
  | @returned call callee item items l l₁ l₂ s s₁ s₂ s₃ result visited started _ ih =>
      rw [List.forall_mem_cons] at hItems
      have hCallee : I (past ∪ A.passed ⟨call, item :: items, l, s⟩) s₂ := by
        rw [passed_of_enter visited, visited_of_returned started, insert_empty_eq,
          Set.union_singleton]
        exact hI.returned hItems.1 hs visited started
      have hLeave := hI.leave hItems.1 hs visited (.returned started) hCallee
      rw [ahead_of_handles (.called visited (.returned started)), ← Set.union_assoc]
      exact ih _ hItems.2 hLeave
  | @entered call callee item items body l l₁ l₂ lb lb' s s₁ s₂ s₃ s₄ visited started swept _
      ihBody ihRest =>
      rw [List.forall_mem_cons] at hItems
      have hEntered : I (insert ⟨call, item :: items, l, s⟩ past) s₂ :=
        hI.body hItems.1 hs visited started
      have hCallee : I (past ∪ A.passed ⟨call, item :: items, l, s⟩) s₃ := by
        rw [passed_of_enter visited, visited_of_body started, Set.union_insert,
          ← Set.insert_union]
        exact ihBody _ (hGood started) hEntered
      have hLeave := hI.leave hItems.1 hs visited (.swept started swept) hCallee
      rw [ahead_of_handles (.called visited (.swept started swept)), ← Set.union_assoc]
      exact ihRest _ hItems.2 hLeave

/-- The same for a single item with all that its callee does. -/
theorem handles {p q : Point Call Item Locals State} {past : Set (Point Call Item Locals State)}
    (hp : ∀ item ∈ p.items, Good p.call item) (hs : I past p.state) (h : A.Handles p q) :
    I (past ∪ A.passed p) q.state := by
  cases h with
  | done visited =>
      rw [passed_of_done visited, Set.union_singleton]
      exact hI.done (hp _ List.mem_cons_self) hs visited
  | called visited analysed =>
      have hItem := hp _ List.mem_cons_self
      refine hI.leave hItem hs visited analysed ?_
      rw [passed_of_enter visited]
      cases analysed with
      | returned started =>
          rw [visited_of_returned started, insert_empty_eq, Set.union_singleton]
          exact hI.returned hItem hs visited started
      | swept started swept =>
          rw [visited_of_body started, Set.union_insert, ← Set.insert_union]
          exact hI.sweeps hGood _ (hGood started) (hI.body hItem hs visited started) swept

/-- Along a path, what has been passed at its beginning is still past. -/
theorem path {p q : Point Call Item Locals State} {chain : List (Point Call Item Locals State)}
    {before past : Set (Point Call Item Locals State)} (hp : ∀ item ∈ p.items, Good p.call item)
    (hs : I before p.state) (h : A.Path p chain past q) : I (before ∪ past) q.state := by
  induction h with
  | refl => rwa [Set.union_empty]
  | handles prior last ih =>
      rw [← Set.union_assoc]
      exact hI.handles hGood (prior.reaches.good hGood hp) ih last
  | enters prior last ih =>
      rw [Set.union_insert]
      cases last with
      | body visited started =>
          exact hI.body (prior.reaches.good hGood hp _ List.mem_cons_self) ih visited started

end Annals

namespace Chronicles
variable {A} {Good : Call → Item → Prop} {I : Set (Point Call Item Locals State) → State → Prop}
variable (hGood : A.Supplies Good) (hI : A.Chronicles Good I)
include hGood hI

theorem sweeps {call : Call} {items : List Item} {l l' : Locals} {s s' : State}
    (past : Set (Point Call Item Locals State)) (hItems : ∀ item ∈ items, Good call item)
    (hs : I past s) (h : A.Sweeps call items l s l' s') :
    I (past ∪ A.ahead ⟨call, items, l, s⟩) s' := hI.annals.sweeps hGood past hItems hs h

/-- Run rule for any point that is reached, where callees that have not returned are part of the
past. -/
theorem path {p q : Point Call Item Locals State} {chain : List (Point Call Item Locals State)}
    {before past : Set (Point Call Item Locals State)} (hp : ∀ item ∈ p.items, Good p.call item)
    (hs : I before p.state) (h : A.Path p chain past q) : I (before ∪ past) q.state :=
  hI.annals.path hGood hp hs h

end Chronicles

section Evaluation

inductive Move where
  | handle | descend

def follow (fuel : Nat) : List Move → List (Point Call Item Locals State) →
    Point Call Item Locals State →
    Option (List (Point Call Item Locals State) × Point Call Item Locals State)
  | [], chain, p => some (chain, p)
  | .handle :: moves, chain, p => (A.handled fuel p).bind (follow fuel moves chain)
  | .descend :: moves, chain, p => (A.entered p).bind (follow fuel moves (p :: chain))

/-- An execution that is followed by hand is a path, for use in examples. -/
theorem exists_path_of_follow {fuel : Nat} {moves : List Move}
    {chain chain' : List (Point Call Item Locals State)} {p q r : Point Call Item Locals State}
    {past : Set (Point Call Item Locals State)} (prior : A.Path p chain past q)
    (h : A.follow fuel moves chain q = some (chain', r)) : ∃ past', A.Path p chain' past' r := by
  induction moves generalizing chain past q with
  | nil =>
      cases h
      exact ⟨past, prior⟩
  | cons move moves ih =>
      cases move with
      | handle =>
          obtain ⟨q', hMove, hRest⟩ := Option.bind_eq_some_iff.mp h
          exact ih (prior.handles (A.handles_of_handled hMove)) hRest
      | descend =>
          obtain ⟨q', hMove, hRest⟩ := Option.bind_eq_some_iff.mp h
          exact ih (prior.enters (A.enters_of_entered hMove)) hRest

def followCall (fuel : Nat) (moves : List Move) (call : Call) (s : State) :
    Option (List (Point Call Item Locals State) × Point Call Item Locals State) :=
  match A.start call s with
  | .ok (.body items l s) => A.follow fuel moves [] ⟨call, items, l, s⟩
  | _ => none

/-- A point that the moves lead to, established by evaluation. -/
theorem exists_path_of_eval (fuel : Nat) (moves : List Move) {call : Call} {s : State}
    {P : List (Point Call Item Locals State) → Point Call Item Locals State → Prop}
    [∀ chain q, Decidable (P chain q)]
    (h : (A.followCall fuel moves call s).any (fun c => P c.1 c.2) = true) :
    ∃ items l s₁ chain past q, A.start call s = .ok (.body items l s₁) ∧
      A.Path ⟨call, items, l, s₁⟩ chain past q ∧ P chain q := by
  obtain ⟨⟨chain, q⟩, hFollow, hProp⟩ := (Option.any_eq_true _ _).mp h
  unfold followCall at hFollow
  split at hFollow
  · next started =>
      obtain ⟨past, hPath⟩ := A.exists_path_of_follow .refl hFollow
      exact ⟨_, _, _, chain, past, q, started, hPath, of_decide_eq_true hProp⟩
  · cases hFollow

end Evaluation

end Analyzer
end CallSweep
