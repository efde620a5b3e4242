import Mathlib.Logic.Relation
import Mathlib.Tactic.Common
import ConAnalysis.Library.Exceptions

/-! Analyses that sweep over the items of a procedure body once and recurse
into the procedures called there. What one item does is separated from the
recursion, so an invariant or a simulation is proved about single visits and
carried through whole runs here. Nothing is assumed about items or states. -/
namespace CallSweep

/-- Why a run produced no result. Running out of fuel says nothing about the
analysed procedure; a fault is raised by the analysis itself. -/
inductive Stop (Fault : Type) where
  | fault (reason : Fault)
  | outOfFuel
deriving DecidableEq, Repr

/-- One item is either handled completely or asks for a callee's analysis. -/
inductive Outcome (Call Locals State : Type) where
  | done (locals : Locals) (state : State)
  | enter (callee : Call) (locals : Locals) (state : State)

/-- A call either returns before its body is swept or supplies the items. -/
inductive Entry (Item Locals State Result : Type) where
  | returned (result : Result) (state : State)
  | body (items : List Item) (locals : Locals) (state : State)

/-- The non-recursive parts of an analysis. `leave` is what the caller does
with the callee's result, before the next item is visited. -/
structure Analyzer (Call Item Locals State Result Fault : Type) where
  start : Call → State → Except Fault (Entry Item Locals State Result)
  visit : Call → Item → Locals → State → Except Fault (Outcome Call Locals State)
  leave : Call → Item → Result → State → State
  result : Locals → Result

namespace Analyzer
variable {Call Item Locals State Result Fault : Type}
variable (A : Analyzer Call Item Locals State Result Fault)

/-- The loop over the items of one body, given how callees are analysed. -/
def sweep (analyse : Call → State → Except (Stop Fault) (Result × State)) (call : Call) :
    List Item → Locals → State → Except (Stop Fault) (Locals × State)
  | [], locals, state => .ok (locals, state)
  | item :: items, locals, state =>
      match A.visit call item locals state with
      | .error reason => .error (.fault reason)
      | .ok (.done locals state) => sweep analyse call items locals state
      | .ok (.enter callee locals state) =>
          match analyse callee state with
          | .error stop => .error stop
          | .ok (result, state) => sweep analyse call items locals (A.leave callee item result state)

/-- The recursion, with fuel for its depth only. -/
def run : Nat → Call → State → Except (Stop Fault) (Result × State)
  | 0, _, _ => .error .outOfFuel
  | fuel + 1, call, state =>
      match A.start call state with
      | .error reason => .error (.fault reason)
      | .ok (.returned result state) => .ok (result, state)
      | .ok (.body items locals state) =>
          match A.sweep (run fuel) call items locals state with
          | .error stop => .error stop
          | .ok (locals, state) => .ok (A.result locals, state)

/-- A completed sweep, with the sweeps of all bodies entered on the way. -/
inductive Sweeps : Call → List Item → Locals → State → Locals → State → Prop where
  | nil (call : Call) (locals : Locals) (state : State) :
      Sweeps call [] locals state locals state
  | done {call : Call} {item : Item} {items : List Item} {l l₁ l₂ : Locals} {s s₁ s₂ : State}
      (visited : A.visit call item l s = .ok (.done l₁ s₁))
      (rest : Sweeps call items l₁ s₁ l₂ s₂) : Sweeps call (item :: items) l s l₂ s₂
  | returned {call callee : Call} {item : Item} {items : List Item} {l l₁ l₂ : Locals}
      {s s₁ s₂ s₃ : State} {result : Result}
      (visited : A.visit call item l s = .ok (.enter callee l₁ s₁))
      (started : A.start callee s₁ = .ok (.returned result s₂))
      (rest : Sweeps call items l₁ (A.leave callee item result s₂) l₂ s₃) :
      Sweeps call (item :: items) l s l₂ s₃
  | entered {call callee : Call} {item : Item} {items body : List Item}
      {l l₁ l₂ lb lb' : Locals} {s s₁ s₂ s₃ s₄ : State}
      (visited : A.visit call item l s = .ok (.enter callee l₁ s₁))
      (started : A.start callee s₁ = .ok (.body body lb s₂))
      (swept : Sweeps callee body lb s₂ lb' s₃)
      (rest : Sweeps call items l₁ (A.leave callee item (A.result lb') s₃) l₂ s₄) :
      Sweeps call (item :: items) l s l₂ s₄

inductive Runs : Call → State → Result → State → Prop where
  | returned {call : Call} {s s' : State} {result : Result}
      (started : A.start call s = .ok (.returned result s')) : Runs call s result s'
  | swept {call : Call} {items : List Item} {l l' : Locals} {s s₁ s' : State}
      (started : A.start call s = .ok (.body items l s₁))
      (sweeps : A.Sweeps call items l s₁ l' s') : Runs call s (A.result l') s'

/-- Continue a sweep after a call whose complete analysis is known. -/
theorem Sweeps.called {A : Analyzer Call Item Locals State Result Fault} {call callee : Call}
    {item : Item} {items : List Item} {l l₁ l₂ : Locals} {s s₁ s₂ s₃ : State} {result : Result}
    (visited : A.visit call item l s = .ok (.enter callee l₁ s₁))
    (analysed : A.Runs callee s₁ result s₂)
    (rest : A.Sweeps call items l₁ (A.leave callee item result s₂) l₂ s₃) :
    A.Sweeps call (item :: items) l s l₂ s₃ := by
  cases analysed with
  | returned started => exact .returned visited started rest
  | swept started sweeps => exact .entered visited started sweeps rest

/-- What the function computes is derivable in the relation, item by item. -/
theorem sweeps_of_sweep {analyse : Call → State → Except (Stop Fault) (Result × State)}
    (hAnalyse : ∀ callee s result s', analyse callee s = .ok (result, s') →
      A.Runs callee s result s') {call : Call} {items : List Item} {l l' : Locals} {s s' : State}
    (h : A.sweep analyse call items l s = .ok (l', s')) : A.Sweeps call items l s l' s' := by
  induction items generalizing l s with
  | nil =>
      simp only [sweep, Except.ok.injEq, Prod.mk.injEq] at h
      obtain ⟨rfl, rfl⟩ := h
      exact .nil ..
  | cons item items ih =>
      unfold sweep at h
      split at h
      · cases h
      · next visited => exact .done visited (ih h)
      · next visited =>
          split at h
          · cases h
          · next analysed => exact Sweeps.called visited (hAnalyse _ _ _ _ analysed) (ih h)

/-- Every result the function returns has a complete derivation. -/
theorem runs_of_run {fuel : Nat} {call : Call} {s s' : State} {result : Result}
    (h : A.run fuel call s = .ok (result, s')) : A.Runs call s result s' := by
  induction fuel generalizing call s result s' with
  | zero => cases h
  | succ fuel ih =>
      unfold run at h
      split at h
      · cases h
      · next started =>
          simp only [Except.ok.injEq, Prod.mk.injEq] at h
          obtain ⟨rfl, rfl⟩ := h
          exact .returned started
      · next started =>
          split at h
          · cases h
          · next swept =>
              simp only [Except.ok.injEq, Prod.mk.injEq] at h
              obtain ⟨rfl, rfl⟩ := h
              exact .swept started (A.sweeps_of_sweep (fun _ _ _ _ => ih) swept)

/-- More precise callee analyses keep every answer other than lack of fuel. -/
theorem sweep_mono {first second : Call → State → Except (Stop Fault) (Result × State)}
    (hMono : ∀ callee s, first callee s ≠ .error .outOfFuel → second callee s = first callee s)
    {call : Call} {items : List Item} {l : Locals} {s : State}
    (h : A.sweep first call items l s ≠ .error .outOfFuel) :
    A.sweep second call items l s = A.sweep first call items l s := by
  induction items generalizing l s with
  | nil => rfl
  | cons item items ih =>
      unfold sweep at h ⊢
      cases hVisit : A.visit call item l s with
      | error reason => rfl
      | ok outcome =>
          cases outcome with
          | done l₁ s₁ =>
              simp only [hVisit] at h ⊢
              exact ih h
          | enter callee l₁ s₁ =>
              simp only [hVisit] at h ⊢
              have hCallee : first callee s₁ ≠ .error .outOfFuel := by
                intro hFuel
                simp [hFuel] at h
              rw [hMono callee s₁ hCallee]
              cases hFirst : first callee s₁ with
              | error stop => rfl
              | ok answer =>
                  simp only [hFirst] at h ⊢
                  exact ih h

/-- An outcome other than running out of fuel is not changed by more fuel. -/
theorem run_succ {fuel : Nat} {call : Call} {s : State}
    (h : A.run fuel call s ≠ .error .outOfFuel) : A.run (fuel + 1) call s = A.run fuel call s := by
  induction fuel generalizing call s with
  | zero => exact absurd rfl h
  | succ fuel ih =>
      rw [run, run]
      rw [run] at h
      cases hStart : A.start call s with
      | error reason => rfl
      | ok entry =>
          cases entry with
          | returned result s₁ => rfl
          | body items l s₁ =>
              simp only [hStart] at h ⊢
              have hSweep : A.sweep (A.run fuel) call items l s₁ ≠ .error .outOfFuel := by
                intro hFuel
                simp [hFuel] at h
              rw [A.sweep_mono (fun _ _ => ih) hSweep]

/-- Fuel only bounds the depth: once it suffices, more of it changes nothing. -/
theorem run_of_le {fuel budget : Nat} {call : Call} {s : State} (hLe : fuel ≤ budget)
    (h : A.run fuel call s ≠ .error .outOfFuel) : A.run budget call s = A.run fuel call s := by
  induction hLe with
  | refl => rfl
  | step _ ih => rw [A.run_succ (by rw [ih]; exact h), ih]

/-! A point is a place in a running sweep: the items still to be visited by
one frame, its local variables and the shared state. -/
structure Point (Call Item Locals State : Type) where
  call : Call
  items : List Item
  locals : Locals
  state : State

/-- The frame of a point moves past its next item, callee included. -/
inductive Handles : Point Call Item Locals State → Point Call Item Locals State → Prop where
  | done {call : Call} {item : Item} {items : List Item} {l l₁ : Locals} {s s₁ : State}
      (visited : A.visit call item l s = .ok (.done l₁ s₁)) :
      Handles ⟨call, item :: items, l, s⟩ ⟨call, items, l₁, s₁⟩
  | called {call callee : Call} {item : Item} {items : List Item} {l l₁ : Locals}
      {s s₁ s₂ : State} {result : Result}
      (visited : A.visit call item l s = .ok (.enter callee l₁ s₁))
      (analysed : A.Runs callee s₁ result s₂) :
      Handles ⟨call, item :: items, l, s⟩ ⟨call, items, l₁, A.leave callee item result s₂⟩

/-- A new frame starts on the body of the callee of the next item. -/
inductive Enters : Point Call Item Locals State → Point Call Item Locals State → Prop where
  | body {call callee : Call} {item : Item} {items body : List Item} {l l₁ lb : Locals}
      {s s₁ s₂ : State}
      (visited : A.visit call item l s = .ok (.enter callee l₁ s₁))
      (started : A.start callee s₁ = .ok (.body body lb s₂)) :
      Enters ⟨call, item :: items, l, s⟩ ⟨callee, body, lb, s₂⟩

def Advances (p q : Point Call Item Locals State) : Prop := A.Handles p q ∨ A.Enters p q

/-- `q` occurs in the run that continues from `p`, in the frame of `p` or in
a frame opened below it. The run need not be finished. -/
def Reaches : Point Call Item Locals State → Point Call Item Locals State → Prop :=
  Relation.ReflTransGen A.Advances

def Visits (call : Call) (s : State) (q : Point Call Item Locals State) : Prop :=
  ∃ items l s₁, A.start call s = .ok (.body items l s₁) ∧ A.Reaches ⟨call, items, l, s₁⟩ q

/-- The points of the frame of `p` itself. -/
def SameFrame : Point Call Item Locals State → Point Call Item Locals State → Prop :=
  Relation.ReflTransGen A.Handles

/-- A completed sweep passes through its frame item by item. -/
theorem Sweeps.sameFrame {A : Analyzer Call Item Locals State Result Fault} {call : Call}
    {items : List Item} {l l' : Locals} {s s' : State} (h : A.Sweeps call items l s l' s') :
    A.SameFrame ⟨call, items, l, s⟩ ⟨call, [], l', s'⟩ := by
  induction h with
  | nil => exact .refl
  | done visited _ ih => exact .head (.done visited) ih
  | returned visited started _ ih => exact .head (.called visited (.returned started)) ih
  | entered visited started swept _ _ ihRest =>
      exact .head (.called visited (.swept started swept)) ihRest

/-- An invariant is established by single steps, which may rely on the point
they start from and, after a callee, on the callee's complete run. -/
theorem Sweeps.invariant {A : Analyzer Call Item Locals State Result Fault}
    {Reached : Point Call Item Locals State → Prop} {I : State → Prop}
    (advance : ∀ {p q}, Reached p → A.Advances p q → Reached q)
    (done : ∀ {call item items l s l' s'}, Reached ⟨call, item :: items, l, s⟩ → I s →
      A.visit call item l s = .ok (.done l' s') → I s')
    (returned : ∀ {call item items l s callee l' s' result s''},
      Reached ⟨call, item :: items, l, s⟩ → I s →
      A.visit call item l s = .ok (.enter callee l' s') →
      A.start callee s' = .ok (.returned result s'') → I s'')
    (body : ∀ {call item items l s callee l' s' entered lb s''},
      Reached ⟨call, item :: items, l, s⟩ → I s →
      A.visit call item l s = .ok (.enter callee l' s') →
      A.start callee s' = .ok (.body entered lb s'') → I s'')
    (leave : ∀ {call item items l s callee l' s' result s''},
      Reached ⟨call, item :: items, l, s⟩ → A.visit call item l s = .ok (.enter callee l' s') →
      A.Runs callee s' result s'' → I s'' → I (A.leave callee item result s''))
    {call : Call} {items : List Item} {l l' : Locals} {s s' : State}
    (h : A.Sweeps call items l s l' s') (hReached : Reached ⟨call, items, l, s⟩) (hI : I s) :
    I s' := by
  induction h with
  | nil => exact hI
  | done visited _ ih =>
      exact ih (advance hReached (.inl (.done visited))) (done hReached hI visited)
  | returned visited started _ ih =>
      exact ih (advance hReached (.inl (.called visited (.returned started))))
        (leave hReached visited (.returned started) (returned hReached hI visited started))
  | entered visited started swept _ ihBody ihRest =>
      have hBody := ihBody (advance hReached (.inr (.body visited started)))
        (body hReached hI visited started)
      exact ihRest (advance hReached (.inl (.called visited (.swept started swept))))
        (leave hReached visited (.swept started swept) hBody)

section Evaluation

/-- The point at which the callee of the next item starts, if there is one. -/
def entered (p : Point Call Item Locals State) : Option (Point Call Item Locals State) :=
  match p.items with
  | [] => none
  | item :: _ =>
      match A.visit p.call item p.locals p.state with
      | .ok (.enter callee _ s) =>
          match A.start callee s with
          | .ok (.body items l s) => some ⟨callee, items, l, s⟩
          | _ => none
      | _ => none

def handled (fuel : Nat) (p : Point Call Item Locals State) :
    Option (Point Call Item Locals State) :=
  match p.items with
  | [] => none
  | item :: items =>
      match A.visit p.call item p.locals p.state with
      | .ok (.done l s) => some ⟨p.call, items, l, s⟩
      | .ok (.enter callee l s) =>
          match A.run fuel callee s with
          | .ok (result, s) => some ⟨p.call, items, l, A.leave callee item result s⟩
          | .error _ => none
      | .error _ => none

/-- The function that enters a callee agrees with the relation. -/
theorem enters_of_entered {p q : Point Call Item Locals State} (h : A.entered p = some q) :
    A.Enters p q := by
  obtain ⟨call, items, l, s⟩ := p
  unfold entered at h
  split at h
  · cases h
  · next item items hItems =>
      split at h
      · next visited =>
          split at h
          · next started =>
              cases h
              simp only at hItems
              subst hItems
              exact .body visited started
          · cases h
      · cases h

/-- The function that does an item agrees with the relation. -/
theorem handles_of_handled {fuel : Nat} {p q : Point Call Item Locals State}
    (h : A.handled fuel p = some q) : A.Handles p q := by
  obtain ⟨call, items, l, s⟩ := p
  unfold handled at h
  split at h
  · cases h
  · next item items hItems =>
      simp only at hItems
      subst hItems
      split at h
      · next visited =>
          cases h
          exact .done visited
      · next visited =>
          split at h
          · next analysed =>
              cases h
              exact .called visited (A.runs_of_run analysed)
          · cases h
      · cases h

/-- The points of a frame and of the frames opened below it, up to `steps`
moves of the frame itself. -/
def trace (fuel : Nat) : Nat → Point Call Item Locals State → List (Point Call Item Locals State)
  | 0, p => [p]
  | steps + 1, p =>
      p :: ((A.entered p).toList.flatMap (trace fuel steps) ++
        (A.handled fuel p).toList.flatMap (trace fuel steps))

theorem reaches_of_mem_trace {fuel steps : Nat} {p q : Point Call Item Locals State}
    (h : q ∈ A.trace fuel steps p) : A.Reaches p q := by
  induction steps generalizing p with
  | zero =>
      rw [trace, List.mem_singleton] at h
      subst h
      exact .refl
  | succ steps ih =>
      simp only [trace, List.mem_cons, List.mem_append, List.mem_flatMap, Option.mem_toList] at h
      rcases h with rfl | ⟨r, hEnter, hMem⟩ | ⟨r, hHandle, hMem⟩
      · exact .refl
      · exact .head (.inr (A.enters_of_entered hEnter)) (ih hMem)
      · exact .head (.inl (A.handles_of_handled hHandle)) (ih hMem)

def traceCall (fuel steps : Nat) (call : Call) (s : State) : List (Point Call Item Locals State) :=
  match A.start call s with
  | .ok (.body items l s) => A.trace fuel steps ⟨call, items, l, s⟩
  | _ => []

/-- A visited point with a decidable property, established by evaluation. -/
theorem exists_visits_of_eval (fuel steps : Nat) {call : Call} {s : State}
    {P : Point Call Item Locals State → Prop} [DecidablePred P]
    (h : (A.traceCall fuel steps call s).any (fun p => P p) = true) :
    ∃ p, A.Visits call s p ∧ P p := by
  obtain ⟨p, hp, hProp⟩ := List.any_eq_true.mp h
  refine ⟨p, ?_, of_decide_eq_true hProp⟩
  unfold traceCall at hp
  split at hp
  · next started => exact ⟨_, _, _, started, A.reaches_of_mem_trace hp⟩
  · cases hp

end Evaluation

/-- The points a callee visits are visited by the caller's run. -/
theorem Visits.of_enter {A : Analyzer Call Item Locals State Result Fault} {call callee : Call}
    {item : Item} {items : List Item} {l l₁ : Locals} {s s₁ : State}
    {q : Point Call Item Locals State}
    (visited : A.visit call item l s = .ok (.enter callee l₁ s₁))
    (h : A.Visits callee s₁ q) : A.Reaches ⟨call, item :: items, l, s⟩ q := by
  obtain ⟨body, lb, s₂, started, hReach⟩ := h
  exact .head (.inr (.body visited started)) hReach

/-- Every item that is ever swept has a property of its own. -/
def Supplies (Good : Call → Item → Prop) : Prop :=
  ∀ {call s items l s'}, A.start call s = .ok (.body items l s') → ∀ item ∈ items, Good call item

/-- A relation between states that every part of the analysis respects, given
good items. For an invariant `I`, take `fun s s' => I s → I s'`. -/
structure Respects (Good : Call → Item → Prop) (R : State → State → Prop) : Prop where
  refl : ∀ s, R s s
  trans : ∀ {s₁ s₂ s₃}, R s₁ s₂ → R s₂ s₃ → R s₁ s₃
  returned : ∀ {call s result s'}, A.start call s = .ok (.returned result s') → R s s'
  body : ∀ {call s items l s'}, A.start call s = .ok (.body items l s') → R s s'
  done : ∀ {call item l s l' s'}, Good call item →
    A.visit call item l s = .ok (.done l' s') → R s s'
  enter : ∀ {call item l s callee l' s'}, Good call item →
    A.visit call item l s = .ok (.enter callee l' s') → R s s'
  leave : ∀ {call item l s callee l' s'} result s'', Good call item →
    A.visit call item l s = .ok (.enter callee l' s') → R s'' (A.leave callee item result s'')

/-- Whatever the items of every call satisfy, those at the points reached satisfy. -/
theorem Reaches.good {A : Analyzer Call Item Locals State Result Fault} {Good : Call → Item → Prop}
    (hGood : A.Supplies Good) {p q : Point Call Item Locals State} (h : A.Reaches p q)
    (hp : ∀ item ∈ p.items, Good p.call item) : ∀ item ∈ q.items, Good q.call item := by
  induction h with
  | refl => exact hp
  | tail _ last ih =>
      rcases last with handles | enters
      · cases handles with
        | done => exact fun item hItem => ih item (List.mem_cons_of_mem _ hItem)
        | called => exact fun item hItem => ih item (List.mem_cons_of_mem _ hItem)
      · cases enters with
        | body _ started => exact hGood started

/-- The next item of a visited point is good. -/
theorem Visits.good {A : Analyzer Call Item Locals State Result Fault} {Good : Call → Item → Prop}
    (hGood : A.Supplies Good) {call : Call} {s : State} {q : Point Call Item Locals State}
    (h : A.Visits call s q) : ∀ item ∈ q.items, Good q.call item := by
  obtain ⟨items, l, s₁, started, hReach⟩ := h
  exact hReach.good hGood (hGood started)

namespace Respects
variable {A} {Good : Call → Item → Prop} {R : State → State → Prop}
variable (hGood : A.Supplies Good) (hR : A.Respects Good R)
include hGood hR

theorem sweeps {call : Call} {items : List Item} {l l' : Locals} {s s' : State}
    (hItems : ∀ item ∈ items, Good call item) (h : A.Sweeps call items l s l' s') : R s s' := by
  induction h with
  | nil => exact hR.refl _
  | done visited _ ih =>
      rw [List.forall_mem_cons] at hItems
      exact hR.trans (hR.done hItems.1 visited) (ih hItems.2)
  | returned visited started _ ih =>
      rw [List.forall_mem_cons] at hItems
      exact hR.trans (hR.enter hItems.1 visited) (hR.trans (hR.returned started)
        (hR.trans (hR.leave _ _ hItems.1 visited) (ih hItems.2)))
  | entered visited started _ _ ihBody ihRest =>
      rw [List.forall_mem_cons] at hItems
      exact hR.trans (hR.enter hItems.1 visited) (hR.trans (hR.body started)
        (hR.trans (ihBody (hGood started))
          (hR.trans (hR.leave _ _ hItems.1 visited) (ihRest hItems.2))))

/-- Run rule: what relates the states before and after each step relates those before and after
a whole call. Induction over the derivation, callees first. -/
theorem runs {call : Call} {s s' : State} {result : Result}
    (h : A.Runs call s result s') : R s s' := by
  cases h with
  | returned started => exact hR.returned started
  | swept started sweeps => exact hR.trans (hR.body started) (hR.sweeps hGood (hGood started) sweeps)

theorem handles {p q : Point Call Item Locals State} (hp : ∀ item ∈ p.items, Good p.call item)
    (h : A.Handles p q) : R p.state q.state := by
  cases h with
  | done visited => exact hR.done (hp _ List.mem_cons_self) visited
  | called visited analysed =>
      exact hR.trans (hR.enter (hp _ List.mem_cons_self) visited)
        (hR.trans (hR.runs hGood analysed) (hR.leave _ _ (hp _ List.mem_cons_self) visited))

/-- Run rule for every point that is reached, inside callees that have not returned. -/
theorem reaches {p q : Point Call Item Locals State} (hp : ∀ item ∈ p.items, Good p.call item)
    (h : A.Reaches p q) : R p.state q.state := by
  induction h with
  | refl => exact hR.refl _
  | tail reach last ih =>
      have hMiddle := Reaches.good hGood reach hp
      refine hR.trans ih ?_
      rcases last with handles | enters
      · exact hR.handles hGood hMiddle handles
      · cases enters with
        | body visited started =>
            exact hR.trans (hR.enter (hMiddle _ List.mem_cons_self) visited) (hR.body started)

/-- The points visited by a call are reached from its start. -/
theorem visits {call : Call} {s : State} {q : Point Call Item Locals State}
    (h : A.Visits call s q) : R s q.state := by
  obtain ⟨items, l, s₁, started, hReach⟩ := h
  exact hR.trans (hR.body started) (hR.reaches hGood (hGood started) hReach)

end Respects

/-- A stack discipline: `context` is restored by every complete visit, and
entering a callee moves to a context of smaller depth. -/
structure Balanced {Context : Type} (context : State → Context) (depth : Context → Nat) :
    Prop where
  returned : ∀ {call s result s'}, A.start call s = .ok (.returned result s') →
    context s' = context s
  body : ∀ {call s items l s'}, A.start call s = .ok (.body items l s') → context s' = context s
  done : ∀ {call item l s l' s'}, A.visit call item l s = .ok (.done l' s') →
    context s' = context s
  enter : ∀ {call item l s callee l' s'}, A.visit call item l s = .ok (.enter callee l' s') →
    depth (context s') < depth (context s)
  leave : ∀ {call item l s callee l' s' result s''},
    A.visit call item l s = .ok (.enter callee l' s') → context s'' = context s' →
    context (A.leave callee item result s'') = context s

/-- A relation that single steps keep to as long as the context is safe for
the call at hand. `Safe` itself passes from a caller to its callees. -/
structure RespectsUnder {Context : Type} (Good : Call → Item → Prop) (context : State → Context)
    (Safe : Call → Context → Prop) (R : State → State → Prop) : Prop where
  refl : ∀ s, R s s
  trans : ∀ {s₁ s₂ s₃}, R s₁ s₂ → R s₂ s₃ → R s₁ s₃
  safe : ∀ {call item l s callee l' s'}, Safe call (context s) →
    A.visit call item l s = .ok (.enter callee l' s') → Safe callee (context s')
  done : ∀ {call item l s l' s'}, Good call item → Safe call (context s) →
    A.visit call item l s = .ok (.done l' s') → R s s'
  returned : ∀ {call item l s callee l' s' result s''}, Good call item → Safe call (context s) →
    A.visit call item l s = .ok (.enter callee l' s') →
    A.start callee s' = .ok (.returned result s'') → R s s''
  body : ∀ {call item l s callee l' s' items lb s''}, Good call item → Safe call (context s) →
    A.visit call item l s = .ok (.enter callee l' s') →
    A.start callee s' = .ok (.body items lb s'') → R s s''
  leave : ∀ {call item l s callee l' s'} result s'', Good call item → Safe call (context s) →
    A.visit call item l s = .ok (.enter callee l' s') → R s'' (A.leave callee item result s'')

namespace Balanced
variable {A} {Context : Type} {context : State → Context} {depth : Context → Nat}
variable (hB : A.Balanced context depth)
include hB

theorem sweeps {call : Call} {items : List Item} {l l' : Locals} {s s' : State}
    (h : A.Sweeps call items l s l' s') : context s' = context s := by
  induction h with
  | nil => rfl
  | done visited _ ih => exact ih.trans (hB.done visited)
  | returned visited started _ ih =>
      exact ih.trans (hB.leave visited (hB.returned started))
  | entered visited started _ _ ihBody ihRest =>
      exact ihRest.trans (hB.leave visited (ihBody.trans (hB.body started)))

theorem runs {call : Call} {s s' : State} {result : Result}
    (h : A.Runs call s result s') : context s' = context s := by
  cases h with
  | returned started => exact hB.returned started
  | swept started sweeps => exact (hB.sweeps sweeps).trans (hB.body started)

theorem handles {p q : Point Call Item Locals State} (h : A.Handles p q) :
    context q.state = context p.state := by
  cases h with
  | done visited => exact hB.done visited
  | called visited analysed => exact hB.leave visited (hB.runs analysed)

section Under
variable {Good : Call → Item → Prop} {Safe : Call → Context → Prop} {R : State → State → Prop}

theorem sweeps_under (hGood : A.Supplies Good) (hR : A.RespectsUnder Good context Safe R)
    {call : Call} {items : List Item} {l l' : Locals} {s s' : State}
    (hItems : ∀ item ∈ items, Good call item) (hSafe : Safe call (context s))
    (h : A.Sweeps call items l s l' s') : R s s' := by
  induction h with
  | nil => exact hR.refl _
  | done visited _ ih =>
      rw [List.forall_mem_cons] at hItems
      exact hR.trans (hR.done hItems.1 hSafe visited)
        (ih hItems.2 (by rwa [hB.done visited]))
  | returned visited started _ ih =>
      rw [List.forall_mem_cons] at hItems
      refine hR.trans (hR.returned hItems.1 hSafe visited started)
        (hR.trans (hR.leave _ _ hItems.1 hSafe visited) (ih hItems.2 ?_))
      rwa [hB.leave visited (hB.returned started)]
  | entered visited started swept _ ihBody ihRest =>
      rw [List.forall_mem_cons] at hItems
      have hEntered := hB.body started
      have hBody := ihBody (hGood started) (by rw [hEntered]; exact hR.safe hSafe visited)
      refine hR.trans (hR.body hItems.1 hSafe visited started) (hR.trans hBody
        (hR.trans (hR.leave _ _ hItems.1 hSafe visited) (ihRest hItems.2 ?_)))
      rwa [hB.leave visited ((hB.sweeps swept).trans hEntered)]

/-- A run from a safe context, whatever its caller is. -/
theorem runs_under (hGood : A.Supplies Good) (hR : A.RespectsUnder Good context Safe R)
    {call : Call} {s s' : State} {result : Result}
    (hReturned : ∀ result s', A.start call s = .ok (.returned result s') → R s s')
    (hBody : ∀ items l s', A.start call s = .ok (.body items l s') → R s s')
    (hSafe : Safe call (context s)) (h : A.Runs call s result s') : R s s' := by
  cases h with
  | returned started => exact hReturned _ _ started
  | swept started sweeps =>
      rw [← hB.body started] at hSafe
      exact hR.trans (hBody _ _ _ started) (sweeps_under hB hGood hR (hGood started) hSafe sweeps)

/-- A frame respects the relation while it handles one item. -/
theorem handles_under (hGood : A.Supplies Good) (hR : A.RespectsUnder Good context Safe R)
    {p q : Point Call Item Locals State} (hp : ∀ item ∈ p.items, Good p.call item)
    (hSafe : Safe p.call (context p.state)) (h : A.Handles p q) : R p.state q.state := by
  cases h with
  | done visited => exact hR.done (hp _ List.mem_cons_self) hSafe visited
  | called visited analysed =>
      have hItem := hp _ List.mem_cons_self
      refine hR.trans ?_ (hR.leave _ _ hItem hSafe visited)
      cases analysed with
      | returned started => exact hR.returned hItem hSafe visited started
      | swept started sweeps =>
          have hCallee : Safe _ (context _) := hR.safe hSafe visited
          rw [← hB.body started] at hCallee
          exact hR.trans (hR.body hItem hSafe visited started)
            (sweeps_under hB hGood hR (hGood started) hCallee sweeps)

theorem reaches_under (hGood : A.Supplies Good) (hR : A.RespectsUnder Good context Safe R)
    {p q : Point Call Item Locals State} (hp : ∀ item ∈ p.items, Good p.call item)
    (hSafe : Safe p.call (context p.state)) (h : A.Reaches p q) :
    R p.state q.state ∧ Safe q.call (context q.state) := by
  induction h with
  | refl => exact ⟨hR.refl _, hSafe⟩
  | tail reach last ih =>
      have hMiddle := Reaches.good hGood reach hp
      obtain ⟨hSoFar, hSafe⟩ := ih
      rcases last with handles | enters
      · refine ⟨hR.trans hSoFar (handles_under hB hGood hR hMiddle hSafe handles), ?_⟩
        rw [hB.handles handles]
        cases handles <;> exact hSafe
      · cases enters with
        | body visited started =>
            refine ⟨hR.trans hSoFar (hR.body (hMiddle _ List.mem_cons_self) hSafe visited started), ?_⟩
            rw [hB.body started]
            exact hR.safe hSafe visited

end Under

/-- Sweep rule for termination: a callee is deeper in the context, so one unit of fuel less is
enough for it. -/
theorem sweep_ne_outOfFuel {fuel : Nat}
    (ih : ∀ callee s, depth (context s) < fuel → A.run fuel callee s ≠ .error .outOfFuel)
    (call : Call) (items : List Item) (l : Locals) (s : State)
    (hDepth : depth (context s) ≤ fuel) :
    A.sweep (A.run fuel) call items l s ≠ .error .outOfFuel := by
  induction items generalizing l s with
  | nil => simp [sweep]
  | cons item items ihItems =>
      unfold sweep
      cases hVisit : A.visit call item l s with
      | error reason => simp
      | ok outcome =>
          cases outcome with
          | done l₁ s₁ => exact ihItems l₁ s₁ (by rwa [hB.done hVisit])
          | enter callee l₁ s₁ =>
              have hLower := hB.enter hVisit
              have hCallee := ih callee s₁ (by omega)
              cases hRun : A.run fuel callee s₁ with
              | error stop =>
                  rw [hRun] at hCallee
                  simpa [hRun] using hCallee
              | ok answer =>
                  have hBack : context (A.leave callee item answer.1 answer.2) = context s :=
                    hB.leave hVisit (hB.runs (A.runs_of_run hRun))
                  simpa only [hRun] using ihItems l₁ _ (by rwa [hBack])

/-- Fuel beyond the depth of the starting context is enough: the recursion
ends, with a result or with a fault of the analysis. -/
theorem run_ne_outOfFuel {fuel : Nat} {call : Call} {s : State}
    (hDepth : depth (context s) < fuel) : A.run fuel call s ≠ .error .outOfFuel := by
  induction fuel generalizing call s with
  | zero => omega
  | succ fuel ih =>
      unfold run
      cases hStart : A.start call s with
      | error reason => simp
      | ok entry =>
          cases entry with
          | returned result s₁ => simp
          | body items l s₁ =>
              have hSame := hB.body hStart
              have hSweep := hB.sweep_ne_outOfFuel (fun _ _ => ih) call items l s₁
                (by rw [hSame]; omega)
              cases hRun : A.sweep (A.run fuel) call items l s₁ with
              | error stop =>
                  rw [hRun] at hSweep
                  simpa [hRun] using hSweep
              | ok answer => simp [hRun]

end Balanced
end Analyzer
end CallSweep
