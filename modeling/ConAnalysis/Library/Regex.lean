import Mathlib.Data.List.Basic
import Mathlib.Tactic.Common

/-! Regular expressions with capture groups, matched at the beginning of a text.
The ways to match are listed in the order in which a backtracking matcher tries
them, so the first one is the match that it finds. Repetition is greedy and of
single characters only. -/

abbrev Text := List Char

inductive Regex where
  | empty
  | char (p : Char → Bool)
  | many (p : Char → Bool)
  | seq (a b : Regex)
  | alt (a b : Regex)
  | opt (a : Regex)
  | group (n : Nat) (a : Regex)
  | endOfLine

namespace Regex

/-- The texts of the groups that have matched, the latest one first. -/
abbrev Captures := List (Nat × Text)

/-- What a greedy repetition may leave, in the order in which it gives back. -/
@[grind =]
def remainders (p : Char → Bool) : Text → List Text
  | [] => [[]]
  | c :: rest => if p c then remainders p rest ++ [c :: rest] else [c :: rest]

/-- The beginning of a text that is left over by `rest`. -/
def consumed (text rest : Text) : Text := text.take (text.length - rest.length)

/-- All ways to match: what they leave and what they capture. -/
@[grind =]
def ways : Regex → Text → Captures → List (Text × Captures)
  | .empty, text, groups => [(text, groups)]
  | .char _, [], _ => []
  | .char p, c :: rest, groups => if p c then [(rest, groups)] else []
  | .many p, text, groups => (remainders p text).map fun rest => (rest, groups)
  | .seq a b, text, groups => (a.ways text groups).flatMap fun (rest, groups) => b.ways rest groups
  | .alt a b, text, groups => a.ways text groups ++ b.ways text groups
  | .opt a, text, groups => a.ways text groups ++ [(text, groups)]
  | .group n a, text, groups =>
      (a.ways text groups).map fun (rest, groups) => (rest, (n, consumed text rest) :: groups)
  | .endOfLine, text, groups => if text = [] ∨ text = ['\n'] then [(text, groups)] else []

def find? (r : Regex) (text : Text) : Option Captures := (r.ways text []).head?.map Prod.snd

def accepts (r : Regex) (text : Text) : Bool := (r.find? text).isSome

def seqs : List Regex → Regex
  | [] => .empty
  | [a] => a
  | a :: as => a.seq (seqs as)

def literal (text : Text) : Regex := seqs (text.map fun c => .char (· == c))

/-- The texts that an expression can consume. -/
def Lang : Regex → Text → Prop
  | .empty, x => x = []
  | .char p, x => ∃ c, p c = true ∧ x = [c]
  | .many p, x => ∀ c ∈ x, p c = true
  | .seq a b, x => ∃ y z, x = y ++ z ∧ a.Lang y ∧ b.Lang z
  | .alt a b, x => a.Lang x ∨ b.Lang x
  | .opt a, x => a.Lang x ∨ x = []
  | .group _ a, x => a.Lang x
  | .endOfLine, x => x = []

/-- The groups of an expression with what they enclose. -/
def groups : Regex → List (Nat × Regex)
  | .seq a b | .alt a b => a.groups ++ b.groups
  | .opt a => a.groups
  | .group n a => (n, a) :: a.groups
  | _ => []

def mandatory : Regex → List Nat
  | .seq a b => a.mandatory ++ b.mandatory
  | .group n a => n :: a.mandatory
  | _ => []

/-- What a match has consumed is what stands before the rest. -/
theorem consumed_append (x rest : Text) : consumed (x ++ rest) rest = x := by
  simp [consumed]

/-- The ways of a starred class: every split with characters of the class in front. -/
theorem mem_remainders {p : Char → Bool} {text rest : Text} :
    rest ∈ remainders p text ↔ ∃ x, text = x ++ rest ∧ ∀ c ∈ x, p c = true := by
  induction text with
  | nil =>
      constructor
      · intro h
        exact ⟨[], (List.mem_singleton.mp h).symm, by simp⟩
      · rintro ⟨x, hText, -⟩
        exact List.mem_singleton.mpr (List.append_eq_nil_iff.mp hText.symm).2
  | cons c text ih =>
      rw [remainders]
      split
      · next hp =>
          rw [List.mem_append, List.mem_singleton, ih]
          constructor
          · rintro (⟨x, rfl, hx⟩ | rfl)
            · exact ⟨c :: x, rfl, List.forall_mem_cons.mpr ⟨hp, hx⟩⟩
            · exact ⟨[], rfl, by simp⟩
          · rintro ⟨x, hText, hx⟩
            cases x with
            | nil => exact .inr hText.symm
            | cons d x =>
                rw [List.cons_append, List.cons.injEq] at hText
                exact .inl ⟨x, hText.2, (List.forall_mem_cons.mp hx).2⟩
      · next hp =>
          rw [List.mem_singleton]
          constructor
          · rintro rfl
            exact ⟨[], rfl, by simp⟩
          · rintro ⟨x, hText, hx⟩
            cases x with
            | nil => exact hText.symm
            | cons d x =>
                rw [List.cons_append, List.cons.injEq] at hText
                rw [hText.1] at hp
                exact absurd (List.forall_mem_cons.mp hx).1 hp

/-- What is known about a way to match: it consumes a text of the language, and
the captures it adds are of the groups of the expression. -/
structure Sound (r : Regex) (text : Text) (before : Captures) (rest : Text) (after : Captures) :
    Prop where
  consumes : ∃ x, text = x ++ rest ∧ r.Lang x
  captures : ∃ new, after = new ++ before ∧
    (∀ n y, (n, y) ∈ new → ∃ a, (n, a) ∈ r.groups ∧ a.Lang y) ∧
    ∀ n ∈ r.mandatory, ∃ y, (n, y) ∈ new

/-- Without mandatory groups, a word of the language is matched soundly. -/
theorem Sound.of_lang {r : Regex} {x rest : Text} {groups : Captures} (hMandatory : r.mandatory = [])
    (h : r.Lang x) : r.Sound (x ++ rest) groups rest groups := by
  refine ⟨⟨x, rfl, h⟩, [], rfl, by simp, ?_⟩
  rw [hMandatory]
  simp

/-- The backtracking search finds only what the expression allows, groups included. -/
theorem sound_of_mem_ways {r : Regex} {text rest : Text} {before after : Captures}
    (h : (rest, after) ∈ r.ways text before) : r.Sound text before rest after := by
  induction r generalizing text before rest after with
  | empty =>
      obtain ⟨rfl, rfl⟩ := Prod.mk.inj (List.mem_singleton.mp h)
      exact .of_lang (x := []) rfl rfl
  | char p =>
      cases text with
      | nil => cases h
      | cons c text =>
          rw [ways] at h
          split at h
          · next hp =>
              obtain ⟨rfl, rfl⟩ := Prod.mk.inj (List.mem_singleton.mp h)
              exact .of_lang (x := [c]) rfl ⟨c, hp, rfl⟩
          · cases h
  | many p =>
      obtain ⟨rest', hRest, hEq⟩ := List.mem_map.mp h
      obtain ⟨rfl, rfl⟩ := Prod.mk.inj hEq
      obtain ⟨x, rfl, hx⟩ := mem_remainders.mp hRest
      exact .of_lang rfl hx
  | seq a b iha ihb =>
      obtain ⟨⟨middle, between⟩, hFirst, hSecond⟩ := List.mem_flatMap.mp h
      obtain ⟨⟨x, rfl, hx⟩, new, rfl, hNew, hAll⟩ := iha hFirst
      obtain ⟨⟨y, rfl, hy⟩, new', rfl, hNew', hAll'⟩ := ihb hSecond
      refine ⟨⟨x ++ y, by simp, x, y, rfl, hx, hy⟩, new' ++ new, by simp, ?_, ?_⟩
      · intro n z hMem
        rcases List.mem_append.mp hMem with hMem | hMem
        · obtain ⟨c, hc, hLang⟩ := hNew' n z hMem
          exact ⟨c, List.mem_append_right _ hc, hLang⟩
        · obtain ⟨c, hc, hLang⟩ := hNew n z hMem
          exact ⟨c, List.mem_append_left _ hc, hLang⟩
      · intro n hn
        rcases List.mem_append.mp hn with hn | hn
        · obtain ⟨z, hz⟩ := hAll n hn
          exact ⟨z, List.mem_append_right _ hz⟩
        · obtain ⟨z, hz⟩ := hAll' n hn
          exact ⟨z, List.mem_append_left _ hz⟩
  | alt a b iha ihb =>
      rcases List.mem_append.mp h with h | h
      · obtain ⟨⟨x, rfl, hx⟩, new, rfl, hNew, -⟩ := iha h
        refine ⟨⟨x, rfl, .inl hx⟩, new, rfl, ?_, by simp [mandatory]⟩
        intro n z hMem
        obtain ⟨c, hc, hLang⟩ := hNew n z hMem
        exact ⟨c, List.mem_append_left _ hc, hLang⟩
      · obtain ⟨⟨x, rfl, hx⟩, new, rfl, hNew, -⟩ := ihb h
        refine ⟨⟨x, rfl, .inr hx⟩, new, rfl, ?_, by simp [mandatory]⟩
        intro n z hMem
        obtain ⟨c, hc, hLang⟩ := hNew n z hMem
        exact ⟨c, List.mem_append_right _ hc, hLang⟩
  | opt a ih =>
      rcases List.mem_append.mp h with h | h
      · obtain ⟨⟨x, rfl, hx⟩, new, rfl, hNew, -⟩ := ih h
        exact ⟨⟨x, rfl, .inl hx⟩, new, rfl, hNew, by simp [mandatory]⟩
      · obtain ⟨rfl, rfl⟩ := Prod.mk.inj (List.mem_singleton.mp h)
        exact ⟨⟨[], rfl, .inr rfl⟩, [], rfl, by simp, by simp [mandatory]⟩
  | group n a ih =>
      obtain ⟨⟨rest', after'⟩, hMem, hEq⟩ := List.mem_map.mp h
      obtain ⟨rfl, rfl⟩ := Prod.mk.inj hEq
      obtain ⟨⟨x, rfl, hx⟩, new, rfl, hNew, hAll⟩ := ih hMem
      rw [consumed_append]
      refine ⟨⟨x, rfl, hx⟩, (n, x) :: new, rfl, ?_, ?_⟩
      · intro m z hMem
        rcases List.mem_cons.mp hMem with hEq | hMem
        · obtain ⟨rfl, rfl⟩ := Prod.mk.inj hEq
          exact ⟨a, List.mem_cons_self, hx⟩
        · obtain ⟨c, hc, hLang⟩ := hNew m z hMem
          exact ⟨c, List.mem_cons_of_mem _ hc, hLang⟩
      · intro m hm
        rcases List.mem_cons.mp hm with rfl | hm
        · exact ⟨x, List.mem_cons_self⟩
        · obtain ⟨z, hz⟩ := hAll m hm
          exact ⟨z, List.mem_cons_of_mem _ hz⟩
  | endOfLine =>
      rw [ways] at h
      split at h
      · obtain ⟨rfl, rfl⟩ := Prod.mk.inj (List.mem_singleton.mp h)
        exact .of_lang (x := []) rfl rfl
      · cases h

/-- A capture of a match is a text of its group. -/
theorem lang_of_find? {r : Regex} {text : Text} {captures : Captures}
    (h : r.find? text = some captures) {n : Nat} {y : Text} (hn : captures.lookup n = some y) :
    ∃ a, (n, a) ∈ r.groups ∧ a.Lang y := by
  obtain ⟨⟨rest, after⟩, hHead, rfl⟩ := Option.map_eq_some_iff.mp h
  obtain ⟨-, new, hAfter, hNew, -⟩ := sound_of_mem_ways (List.mem_of_mem_head? hHead)
  obtain ⟨before, behind, hEq, -⟩ := List.lookup_eq_some_iff.mp hn
  refine hNew n y ?_
  rw [List.append_nil] at hAfter
  rw [← hAfter]
  simp only at hEq
  rw [hEq]
  simp

/-- A group that takes part in every match has a capture. -/
theorem lookup_of_find? {r : Regex} {text : Text} {captures : Captures}
    (h : r.find? text = some captures) {n : Nat} (hn : n ∈ r.mandatory) :
    ∃ y, captures.lookup n = some y := by
  obtain ⟨⟨rest, after⟩, hHead, rfl⟩ := Option.map_eq_some_iff.mp h
  obtain ⟨-, new, hAfter, -, hAll⟩ := sound_of_mem_ways (List.mem_of_mem_head? hHead)
  obtain ⟨y, hy⟩ := hAll n hn
  rw [List.append_nil] at hAfter
  have hSome : (after.lookup n).isSome = true := by
    rw [List.lookup_isSome_iff]
    exact ⟨(n, y), by rwa [hAfter], by simp⟩
  exact Option.isSome_iff_exists.mp hSome

section Ways
variable {a b : Regex} {text rest : Text} {before after : Captures}

/-- The two parts share the text at some place between. -/
theorem mem_ways_seq : (rest, after) ∈ (a.seq b).ways text before ↔
    ∃ middle between, (middle, between) ∈ a.ways text before ∧ (rest, after) ∈ b.ways middle between := by
  rw [ways, List.mem_flatMap]
  exact ⟨fun ⟨⟨middle, between⟩, h⟩ => ⟨middle, between, h⟩,
    fun ⟨middle, between, h⟩ => ⟨(middle, between), h⟩⟩

theorem mem_ways_char {p : Char → Bool} : (rest, after) ∈ (char p).ways text before ↔
    ∃ c, p c = true ∧ text = c :: rest ∧ after = before := by
  cases text with
  | nil => simp [ways]
  | cons c text =>
      rw [ways]
      split
      · next hp =>
          rw [List.mem_singleton, Prod.mk.injEq]
          constructor
          · rintro ⟨rfl, rfl⟩
            exact ⟨c, hp, rfl, rfl⟩
          · rintro ⟨d, -, hEq, rfl⟩
            exact ⟨(List.cons.inj hEq).2.symm, rfl⟩
      · next hp =>
          constructor
          · intro h
            cases h
          · rintro ⟨d, hd, hEq, -⟩
            rw [(List.cons.inj hEq).1] at hp
            exact absurd hd hp

theorem mem_ways_many {p : Char → Bool} : (rest, after) ∈ (many p).ways text before ↔
    ∃ x, text = x ++ rest ∧ (∀ c ∈ x, p c = true) ∧ after = before := by
  rw [ways, List.mem_map]
  constructor
  · rintro ⟨z, hz, hEq⟩
    obtain ⟨rfl, rfl⟩ := Prod.mk.inj hEq
    obtain ⟨x, hText, hx⟩ := mem_remainders.mp hz
    exact ⟨x, hText, hx, rfl⟩
  · rintro ⟨x, hText, hx, rfl⟩
    exact ⟨rest, mem_remainders.mpr ⟨x, hText, hx⟩, rfl⟩

theorem mem_ways_opt : (rest, after) ∈ (opt a).ways text before ↔
    (rest, after) ∈ a.ways text before ∨ (rest = text ∧ after = before) := by
  rw [ways, List.mem_append, List.mem_singleton, Prod.mk.injEq]

theorem mem_ways_group {n : Nat} : (rest, after) ∈ (group n a).ways text before ↔
    ∃ x inner, text = x ++ rest ∧ (rest, inner) ∈ a.ways text before ∧ after = (n, x) :: inner := by
  rw [ways, List.mem_map]
  constructor
  · rintro ⟨⟨z, inner⟩, hz, hEq⟩
    obtain ⟨rfl, rfl⟩ := Prod.mk.inj hEq
    obtain ⟨⟨x, rfl, -⟩, -⟩ := sound_of_mem_ways hz
    exact ⟨x, inner, rfl, hz, by rw [consumed_append]⟩
  · rintro ⟨x, inner, rfl, hInner, rfl⟩
    exact ⟨(rest, inner), hInner, by simp only [consumed_append]⟩

theorem mem_ways_group_many {n : Nat} {p : Char → Bool} :
    (rest, after) ∈ (group n (many p)).ways text before ↔
      ∃ x, text = x ++ rest ∧ (∀ c ∈ x, p c = true) ∧ after = (n, x) :: before := by
  rw [mem_ways_group]
  constructor
  · rintro ⟨x, inner, hText, hInner, rfl⟩
    obtain ⟨y, hText', hy, rfl⟩ := mem_ways_many.mp hInner
    obtain rfl : x = y := List.append_cancel_right (hText.symm.trans hText')
    exact ⟨x, hText, hy, rfl⟩
  · rintro ⟨x, hText, hx, rfl⟩
    exact ⟨x, before, hText, mem_ways_many.mpr ⟨x, hText, hx, rfl⟩, rfl⟩

theorem mem_ways_char_beq {d : Char} : (rest, after) ∈ (char (· == d)).ways text before ↔
    text = d :: rest ∧ after = before := by
  rw [mem_ways_char]
  constructor
  · rintro ⟨c, hc, hText, hAfter⟩
    rw [beq_iff_eq.mp hc] at hText
    exact ⟨hText, hAfter⟩
  · exact fun ⟨hText, hAfter⟩ => ⟨d, beq_self_eq_true d, hText, hAfter⟩

end Ways

theorem exists_mem_ways_of_accepts {r : Regex} {text : Text} (h : r.accepts text = true) :
    ∃ rest after, (rest, after) ∈ r.ways text [] := by
  obtain ⟨captures, hFind⟩ := Option.isSome_iff_exists.mp h
  obtain ⟨⟨rest, after⟩, hHead, -⟩ := Option.map_eq_some_iff.mp hFind
  exact ⟨rest, after, List.mem_of_mem_head? hHead⟩

/-- An accepted text begins with a text of the language. -/
theorem lang_of_accepts {r : Regex} {text : Text} (h : r.accepts text = true) :
    ∃ x rest, text = x ++ rest ∧ r.Lang x := by
  obtain ⟨rest, after, hWays⟩ := exists_mem_ways_of_accepts h
  obtain ⟨⟨x, hText, hx⟩, -⟩ := sound_of_mem_ways hWays
  exact ⟨x, rest, hText, hx⟩

theorem literal_cons_lang {c : Char} {word x : Text} :
    (literal (c :: word)).Lang x ↔ x = c :: word := by
  induction word generalizing c x with
  | nil =>
      constructor
      · rintro ⟨d, hd, rfl⟩
        rw [beq_iff_eq.mp hd]
      · rintro rfl
        exact ⟨c, beq_self_eq_true c, rfl⟩
  | cons d word ih =>
      constructor
      · rintro ⟨y, z, rfl, ⟨e, he, rfl⟩, hz⟩
        rw [ih.mp hz, beq_iff_eq.mp he]
        rfl
      · rintro rfl
        exact ⟨[c], d :: word, rfl, ⟨c, beq_self_eq_true c, rfl⟩, ih.mpr rfl⟩

/-- The end of the line behind a repetition that takes line breaks too. -/
theorem all_of_mem_ways_many_endOfLine {p : Char → Bool} (hp : p '\n' = true) {text rest : Text}
    {before after : Captures} (h : (rest, after) ∈ (seqs [.many p, .endOfLine]).ways text before) :
    ∀ c ∈ text, p c = true := by
  obtain ⟨middle, between, hFirst, hSecond⟩ := mem_ways_seq.mp h
  obtain ⟨x, rfl, hx, rfl⟩ := mem_ways_many.mp hFirst
  intro c hc
  rcases List.mem_append.mp hc with hc | hc
  · exact hx c hc
  · simp only [seqs, ways] at hSecond
    split at hSecond
    · next hEnd =>
        rcases hEnd with rfl | rfl
        · cases hc
        · rwa [List.mem_singleton.mp hc]
    · cases hSecond

theorem mem_ways_literal {c : Char} {word text rest : Text} {before after : Captures} :
    (rest, after) ∈ (literal (c :: word)).ways text before ↔
      text = c :: (word ++ rest) ∧ after = before := by
  induction word generalizing c text with
  | nil => exact mem_ways_char_beq
  | cons d word ih =>
      refine mem_ways_seq.trans ?_
      constructor
      · rintro ⟨middle, between, hFirst, hSecond⟩
        obtain ⟨rfl, rfl⟩ := mem_ways_char_beq.mp hFirst
        obtain ⟨rfl, rfl⟩ := ih.mp hSecond
        exact ⟨rfl, rfl⟩
      · rintro ⟨rfl, rfl⟩
        exact ⟨d :: (word ++ rest), after, mem_ways_char_beq.mpr ⟨rfl, rfl⟩, ih.mpr ⟨rfl, rfl⟩⟩

section First
variable {a b : Regex} {text rest : Text} {before after : Captures}

/-- The first way of a sequence, if the first way of its first part goes on. -/
theorem head?_seq {middle : Text} {between : Captures}
    (hFirst : (a.ways text before).head? = some (middle, between))
    (hSecond : (b.ways middle between).head? = some (rest, after)) :
    ((a.seq b).ways text before).head? = some (rest, after) := by
  obtain ⟨others, hOthers⟩ := List.head?_eq_some_iff.mp hFirst
  rw [ways, hOthers, List.flatMap_cons, List.head?_append, hSecond]
  rfl

/-- The first way of a group is the first way of its expression. -/
theorem head?_group (n : Nat) {x : Text} (h : (a.ways (x ++ rest) before).head? = some (rest, after)) :
    ((group n a).ways (x ++ rest) before).head? = some (rest, (n, x) :: after) := by
  rw [ways, List.head?_map, h, Option.map_some]
  simp only [consumed_append]

/-- A repetition takes what it can first. -/
theorem head?_many {p : Char → Bool} {x : Text} (hx : ∀ c ∈ x, p c = true)
    (hStop : ∀ c ∈ rest.head?, p c = false) :
    ((many p).ways (x ++ rest) before).head? = some (rest, before) := by
  rw [ways, List.head?_map]
  have hHead : (remainders p (x ++ rest)).head? = some rest := by
    induction x with
    | nil =>
        cases rest with
        | nil => rfl
        | cons c rest =>
            rw [List.nil_append, remainders, if_neg (by simp [hStop c rfl])]
            rfl
    | cons c x ih =>
        rw [List.forall_mem_cons] at hx
        rw [List.cons_append, remainders, if_pos hx.1, List.head?_append, ih hx.2]
        rfl
  rw [hHead]
  rfl

theorem head?_char {p : Char → Bool} {c : Char} (h : p c = true) :
    ((char p).ways (c :: rest) before).head? = some (rest, before) := by
  rw [ways, if_pos h]
  rfl

/-- The first way of an optional part, if it can match. -/
theorem head?_opt_of_head? (h : (a.ways text before).head? = some (rest, after)) :
    ((opt a).ways text before).head? = some (rest, after) := by
  rw [ways, List.head?_append, h]
  rfl

theorem remainders_append {p : Char → Bool} {x y : Text} (hx : ∀ c ∈ x, p c = true) :
    ∃ shorter, remainders p (x ++ y) = remainders p y ++ shorter := by
  induction x with
  | nil => exact ⟨[], by simp⟩
  | cons c x ih =>
      rw [List.forall_mem_cons] at hx
      obtain ⟨shorter, hEq⟩ := ih hx.2
      exact ⟨shorter ++ [c :: (x ++ y)], by
        rw [List.cons_append, remainders, if_pos hx.1, hEq, List.append_assoc]⟩

/-- All of the text can be left over; the other remainders come first. -/
theorem remainders_eq_concat (p : Char → Bool) (y : Text) :
    ∃ longer, remainders p y = longer ++ [y] ∧ ∀ z ∈ longer, z ∈ remainders p y ∧ z.length < y.length := by
  cases y with
  | nil => exact ⟨[], rfl, by simp⟩
  | cons c y =>
      rw [remainders]
      split
      · refine ⟨remainders p y, rfl, fun z hz => ⟨List.mem_append_left _ hz, ?_⟩⟩
        obtain ⟨x, rfl, -⟩ := mem_remainders.mp hz
        rw [List.length_cons, List.length_append]
        omega
      · exact ⟨[], rfl, by simp⟩

/-- An optional group of repetitions takes `x` if nothing can follow when it takes
more. -/
theorem head?_opt_group_many {p : Char → Bool} {n : Nat} {x y : Text} (hx : ∀ c ∈ x, p c = true)
    (hLonger : ∀ w z groups, w ≠ [] → y = w ++ z → (∀ c ∈ w, p c = true) → b.ways z groups = [])
    (h : (b.ways y ((n, x) :: before)).head? = some (rest, after)) :
    (((opt (group n (many p))).seq b).ways (x ++ y) before).head? = some (rest, after) := by
  obtain ⟨shorter, hShorter⟩ := remainders_append (y := y) hx
  obtain ⟨longer, hAll, hLength⟩ := remainders_eq_concat p y
  have hNone : ∀ z ∈ longer, b.ways z ((n, consumed (x ++ y) z) :: before) = [] := by
    intro z hz
    obtain ⟨w, hw, hChars⟩ := mem_remainders.mp (hLength z hz).1
    refine hLonger w z _ ?_ hw hChars
    rintro rfl
    exact absurd (hLength z hz).2 (by simp [hw])
  rw [ways, ways, ways, ways, hShorter, hAll]
  simp only [List.map_append, List.map_cons, List.map_nil, List.flatMap_append, List.flatMap_cons,
    List.flatMap_nil, List.map_map, List.flatMap_map, Function.comp_def, List.append_nil,
    List.append_assoc]
  rw [List.flatMap_eq_nil_iff.mpr hNone, List.nil_append, consumed_append, List.head?_append, h]
  rfl

/-- A greedy repetition before a character finds the last such character. -/
theorem head?_many_char {p q : Char → Bool} {x y : Text} {c : Char} (hx : ∀ d ∈ x, p d = true)
    (hp : p c = true) (hq : q c = true) (hLast : ∀ d ∈ y, q d = false)
    (h : (b.ways y before).head? = some (rest, after)) :
    (((many p).seq ((char q).seq b)).ways (x ++ c :: y) before).head? = some (rest, after) := by
  have hNone : ∀ z ∈ remainders p y, ((char q).seq b).ways z before = [] := by
    intro z hz
    obtain ⟨w, rfl, -⟩ := mem_remainders.mp hz
    cases z with
    | nil => rfl
    | cons d z =>
        have hd := hLast d (List.mem_append_right w List.mem_cons_self)
        rw [ways, ways, if_neg (by simp [hd])]
        rfl
  have hHere : (((char q).seq b).ways (c :: y) before).head? = some (rest, after) :=
    head?_seq (head?_char hq) h
  have hFlat : ∀ x, (∀ d ∈ x, p d = true) → ((remainders p (x ++ c :: y)).flatMap fun z =>
      ((char q).seq b).ways z before).head? = some (rest, after) := by
    intro x hx
    induction x with
    | nil =>
        rw [List.nil_append, remainders, if_pos hp, List.flatMap_append,
          List.flatMap_eq_nil_iff.mpr hNone]
        simpa using hHere
    | cons d x ih =>
        rw [List.forall_mem_cons] at hx
        rw [List.cons_append, remainders, if_pos hx.1, List.flatMap_append, List.head?_append,
          ih hx.2]
        rfl
  rw [ways, ways, List.flatMap_map]
  exact hFlat x hx

end First
end Regex
