import KafkaCharm.Lib.Text
import KafkaCharm.Lib.Dict
import Mathlib.Data.List.Infix

/-!
# Python regular expressions

The expressions of `re`, as a matcher that backtracks reads them: at a place of the text
an expression has a list of ways to match, the preferred one first. What a caller sees of
them is the first; the others are what the matcher falls back on when the rest of a
larger expression fails.

* `Re.run`: the ways to match of an expression;
* `run_cat_many`: one round of a repetition, unfolded in front of what follows it;
* `Pattern.scan`: `finditer` and `sub`, as the pieces they cut a text into;
  `scan_text` puts the pieces together again.
-/

namespace PyRe

open PyText

/-- What Python raises on expressions and templates. -/
inductive Exn where
  | valueError
  | reError
  | indexError
  | overflowError
  | recursionError
  deriving DecidableEq, Repr

/-- A way to match: the text it takes, and what its groups took, the latest first. -/
structure Found where
  taken : Str
  groups : List (Nat × Str)
  deriving DecidableEq, Repr

namespace Found

/-- Nothing is taken. -/
def nothing : Found := ⟨[], []⟩

/-- `m.group(n)` for a group that is numbered. -/
def group (m : Found) (n : Nat) : Option Str := Dict.get? m.groups n

/-- One match behind another. -/
def andThen (m m' : Found) : Found := ⟨m.taken ++ m'.taken, m'.groups ++ m.groups⟩

/-- A group closes behind the match. -/
def close (n : Nat) (m : Found) : Found := ⟨m.taken, (n, m.taken) :: m.groups⟩

@[simp] theorem nothing_taken : nothing.taken = [] := rfl
@[simp] theorem nothing_groups : nothing.groups = [] := rfl
@[simp] theorem andThen_taken (m m' : Found) : (m.andThen m').taken = m.taken ++ m'.taken := rfl
@[simp] theorem andThen_groups (m m' : Found) :
    (m.andThen m').groups = m'.groups ++ m.groups := rfl
@[simp] theorem close_taken (n : Nat) (m : Found) : (close n m).taken = m.taken := rfl
@[simp] theorem close_groups (n : Nat) (m : Found) :
    (close n m).groups = (n, m.taken) :: m.groups := rfl

@[simp] theorem nothing_andThen (m : Found) : nothing.andThen m = m := by
  simp [andThen]

@[simp] theorem andThen_nothing (m : Found) : m.andThen nothing = m := by
  simp [andThen]

theorem andThen_assoc (a b c : Found) : (a.andThen b).andThen c = a.andThen (b.andThen c) := by
  simp [andThen]

end Found

/-- An expression. Groups carry the number `re` gives them. -/
inductive Re where
  | empty
  | one (p : Char → Bool)
  | atEnd
  | cat (r t : Re)
  | alt (r t : Re)
  | many (greedy : Bool) (r : Re)
  | group (n : Nat) (r : Re)

/-- The rounds of a repetition. A round that takes nothing is not gone into. -/
def rounds (greedy : Bool) (body : Str → List Found) : Nat → Str → List Found
  | 0, _ => [.nothing]
  | fuel + 1, s =>
    let more := (body s).flatMap fun m =>
      if m.taken = [] then []
      else (rounds greedy body fuel (s.drop m.taken.length)).map m.andThen
    if greedy then more ++ [.nothing] else .nothing :: more

namespace Re

/-- The ways to match at the start of a text, in the order in which they are tried. `$`
matches at the end and before a line feed that ends the text. -/
def run : Re → Str → List Found
  | .empty, _ => [.nothing]
  | .one p, s => (s.head?.filter p).toList.map fun c => ⟨[c], []⟩
  | .atEnd, s => if s = [] ∨ s = ['\n'] then [.nothing] else []
  | .cat r t, s => (r.run s).flatMap fun m => (t.run (s.drop m.taken.length)).map m.andThen
  | .alt r t, s => r.run s ++ t.run s
  | .many greedy r, s => rounds greedy r.run s.length s
  | .group n r, s => (r.run s).map (.close n)

/-- A text taken as it stands. -/
def text : Str → Re
  | [] => .empty
  | c :: cs => .cat (.one (· == c)) (text cs)

/-- `r{n}`. -/
def times : Nat → Re → Re
  | 0, _ => .empty
  | n + 1, r => .cat r (times n r)

/-- `.`: anything but a line feed. -/
def dot : Re := .one (· != '\n')

/-- `\s`. -/
def space : Re := .one isSpace

/-- `r+?`. -/
def someLazy (r : Re) : Re := .cat r (.many false r)

variable {r t : Re} {s : Str} {m : Found}

@[simp] theorem run_empty : run .empty s = [.nothing] := rfl
@[simp] theorem run_one_nil (p : Char → Bool) : run (.one p) [] = [] := rfl
@[simp] theorem run_atEnd_nil : run .atEnd [] = [.nothing] := rfl

@[simp] theorem run_one_cons (p : Char → Bool) (c : Char) (s : Str) :
    run (.one p) (c :: s) = if p c then [⟨[c], []⟩] else [] := by
  by_cases h : p c = true
  · simp [run, h]
  · simp [run, h]

theorem run_atEnd_cons (c : Char) (s : Str) :
    run .atEnd (c :: s) = if c = '\n' ∧ s = [] then [.nothing] else [] := by
  simp [run]

theorem run_cat : run (.cat r t) s =
    (r.run s).flatMap fun m => (t.run (s.drop m.taken.length)).map m.andThen := rfl

theorem run_alt : run (.alt r t) s = r.run s ++ t.run s := rfl

theorem run_group (n : Nat) : run (.group n r) s = (r.run s).map (.close n) := rfl

theorem mem_run_cat : m ∈ run (.cat r t) s ↔
    ∃ a ∈ r.run s, ∃ b ∈ t.run (s.drop a.taken.length), a.andThen b = m := by
  simp [run_cat]

theorem mem_run_one {p : Char → Bool} :
    m ∈ run (.one p) s ↔ ∃ c, s.head? = some c ∧ p c = true ∧ m = ⟨[c], []⟩ := by
  cases s with
  | nil => simp
  | cons c s =>
    rw [run_one_cons]
    by_cases h : p c = true
    · simp [h]
    · simp [h]

/-! ## What a match takes -/

theorem rounds_isPrefix {greedy : Bool} {body : Str → List Found}
    (hbody : ∀ s, ∀ m ∈ body s, m.taken <+: s) {fuel : Nat} {s : Str} {m : Found}
    (h : m ∈ rounds greedy body fuel s) : m.taken <+: s := by
  induction fuel generalizing s m with
  | zero =>
    obtain rfl : m = .nothing := by simpa [rounds] using h
    exact List.nil_prefix
  | succ fuel ih =>
    have hcase : m = .nothing ∨ ∃ a ∈ body s,
        m ∈ if a.taken = [] then []
          else (rounds greedy body fuel (s.drop a.taken.length)).map a.andThen := by
      rw [rounds] at h
      split at h
      · rcases List.mem_append.mp h with h | h
        · exact .inr (List.mem_flatMap.mp h)
        · exact .inl (List.mem_singleton.mp h)
      · rcases List.mem_cons.mp h with h | h
        · exact .inl h
        · exact .inr (List.mem_flatMap.mp h)
    rcases hcase with rfl | ⟨a, ha, h⟩
    · exact List.nil_prefix
    · split at h
      · cases h
      · obtain ⟨b, hb, rfl⟩ := List.mem_map.mp h
        obtain ⟨rest, hrest⟩ := hbody s a ha
        have hb' := ih hb
        rw [← hrest, List.drop_left] at hb'
        obtain ⟨rest', hrest'⟩ := hb'
        exact ⟨rest', by rw [Found.andThen_taken, List.append_assoc, hrest', hrest]⟩

/-- What is taken stands at the start of the text. -/
theorem taken_isPrefix (h : m ∈ r.run s) : m.taken <+: s := by
  induction r generalizing s m with
  | empty =>
    obtain rfl : m = .nothing := by simpa using h
    exact List.nil_prefix
  | one p =>
    obtain ⟨c, hc, _, rfl⟩ := mem_run_one.mp h
    cases s with
    | nil => cases hc
    | cons d s =>
      obtain rfl : d = c := by simpa using hc
      exact ⟨s, rfl⟩
  | atEnd =>
    rw [run] at h
    split at h
    · obtain rfl := List.mem_singleton.mp h
      exact List.nil_prefix
    · cases h
  | cat r t ihr iht =>
    obtain ⟨a, ha, b, hb, rfl⟩ := mem_run_cat.mp h
    obtain ⟨rest, hrest⟩ := ihr ha
    have hb' := iht hb
    rw [← hrest, List.drop_left] at hb'
    obtain ⟨rest', hrest'⟩ := hb'
    exact ⟨rest', by rw [Found.andThen_taken, List.append_assoc, hrest', hrest]⟩
  | alt r t ihr iht =>
    rcases List.mem_append.mp h with h | h
    · exact ihr h
    · exact iht h
  | many greedy r ih => exact rounds_isPrefix (fun _ _ hm => ih hm) h
  | group n r ih =>
    obtain ⟨a, ha, rfl⟩ := List.mem_map.mp h
    rw [Found.close_taken]
    exact ih ha

/-! ## Repetition -/

/-- More rounds than there are characters are never gone into. -/
theorem rounds_stable {greedy : Bool} {fuel fuel' : Nat} {s : Str} (h : s.length ≤ fuel)
    (h' : s.length ≤ fuel') : rounds greedy r.run fuel s = rounds greedy r.run fuel' s := by
  induction fuel generalizing fuel' s with
  | zero =>
    obtain rfl : s = [] := List.length_eq_zero_iff.mp (Nat.le_zero.mp h)
    have hnone : (r.run []).flatMap (fun m => if m.taken = [] then []
        else (rounds greedy r.run (fuel' - 1) (List.drop m.taken.length [])).map m.andThen) = [] := by
      rw [List.flatMap_eq_nil_iff]
      intro m hm
      rw [if_pos (List.prefix_nil.mp (taken_isPrefix hm))]
    cases fuel' with
    | zero => rfl
    | succ fuel' =>
      rw [Nat.add_sub_cancel] at hnone
      simp only [rounds, hnone]
      simp
  | succ fuel ih =>
    cases fuel' with
    | zero =>
      obtain rfl : s = [] := List.length_eq_zero_iff.mp (Nat.le_zero.mp h')
      have hnone : (r.run []).flatMap (fun m => if m.taken = [] then []
          else (rounds greedy r.run fuel (List.drop m.taken.length [])).map m.andThen) = [] := by
        rw [List.flatMap_eq_nil_iff]
        intro m hm
        rw [if_pos (List.prefix_nil.mp (taken_isPrefix hm))]
      simp only [rounds, hnone]
      simp
    | succ fuel' =>
      have hmore : ∀ m ∈ r.run s,
          (if m.taken = [] then []
            else (rounds greedy r.run fuel (s.drop m.taken.length)).map m.andThen) =
          if m.taken = [] then []
            else (rounds greedy r.run fuel' (s.drop m.taken.length)).map m.andThen := by
        intro m hm
        by_cases hempty : m.taken = []
        · rw [if_pos hempty, if_pos hempty]
        · have hpos : 0 < m.taken.length := List.length_pos_iff.mpr hempty
          have hle := (taken_isPrefix hm).length_le
          have hdrop : (s.drop m.taken.length).length = s.length - m.taken.length :=
            List.length_drop
          have hstable : rounds greedy r.run fuel (s.drop m.taken.length) =
              rounds greedy r.run fuel' (s.drop m.taken.length) := ih (by omega) (by omega)
          rw [if_neg hempty, if_neg hempty, hstable]
      simp only [rounds]
      rw [List.flatMap_congr hmore]

/-- The rounds of a repetition that take something, each in front of what follows. -/
def again (r : Re) (next : Str → List Found) (s : Str) : List Found :=
  (r.run s).flatMap fun m =>
    if m.taken = [] then [] else (next (s.drop m.taken.length)).map m.andThen

theorem run_many (greedy : Bool) : (Re.many greedy r).run s =
    if greedy then again r (Re.many greedy r).run s ++ [.nothing]
    else .nothing :: again r (Re.many greedy r).run s := by
  have hagain : again r (Re.many greedy r).run s =
      again r (rounds greedy r.run s.length) s := by
    apply List.flatMap_congr
    intro m hm
    have hdrop : (s.drop m.taken.length).length = s.length - m.taken.length := List.length_drop
    have hstable : (Re.many greedy r).run (s.drop m.taken.length) =
        rounds greedy r.run s.length (s.drop m.taken.length) :=
      rounds_stable (Nat.le_refl _) (by omega)
    rw [hstable]
  have hrounds : (Re.many greedy r).run s = rounds greedy r.run (s.length + 1) s :=
    rounds_stable (Nat.le_refl _) (Nat.le_succ _)
  rw [hrounds, hagain]
  rfl

/-- A repetition in front of an expression: another round comes first where the
repetition is greedy and last where it is lazy. -/
theorem run_cat_many (greedy : Bool) : run (.cat (.many greedy r) t) s =
    if greedy then again r (run (.cat (.many greedy r) t)) s ++ t.run s
    else t.run s ++ again r (run (.cat (.many greedy r) t)) s := by
  have hmore : (again r (Re.many greedy r).run s).flatMap
      (fun m => (t.run (s.drop m.taken.length)).map m.andThen) =
      again r (run (.cat (.many greedy r) t)) s := by
    unfold again
    rw [List.flatMap_assoc]
    apply List.flatMap_congr
    intro m _
    by_cases hempty : m.taken = []
    · rw [if_pos hempty, if_pos hempty, List.flatMap_nil]
    · rw [if_neg hempty, if_neg hempty, run_cat, List.flatMap_map, List.map_flatMap]
      apply List.flatMap_congr
      intro m' _
      rw [Found.andThen_taken, List.length_append, List.map_map, ← List.drop_drop]
      apply List.map_congr_left
      intro m'' _
      exact Found.andThen_assoc m m' m''
  have hstop : (t.run (s.drop Found.nothing.taken.length)).map Found.nothing.andThen = t.run s :=
    (List.map_congr_left fun m _ => Found.nothing_andThen m).trans (List.map_id _)
  rw [run_cat, run_many]
  cases greedy with
  | true => rw [if_pos rfl, if_pos rfl, List.flatMap_append, hmore, List.flatMap_singleton, hstop]
  | false =>
    rw [if_neg (by decide), if_neg (by decide), List.flatMap_cons, hmore, hstop]

/-- A repetition over single characters. -/
theorem run_cat_many_one_cons (greedy : Bool) (p : Char → Bool) (c : Char) (s : Str) :
    run (.cat (.many greedy (.one p)) t) (c :: s) =
      if p c then
        let more := (run (.cat (.many greedy (.one p)) t) s).map (Found.andThen ⟨[c], []⟩)
        if greedy then more ++ t.run (c :: s) else t.run (c :: s) ++ more
      else t.run (c :: s) := by
  rw [run_cat_many]
  by_cases hc : p c = true
  · simp [again, hc]
  · simp [again, hc]

theorem run_cat_many_one_nil (greedy : Bool) (p : Char → Bool) :
    run (.cat (.many greedy (.one p)) t) [] = t.run [] := by
  rw [run_cat_many]
  simp [again]

theorem run_many_one_cons (greedy : Bool) (p : Char → Bool) (c : Char) (s : Str) :
    run (.many greedy (.one p)) (c :: s) =
      if p c then
        let more := (run (.many greedy (.one p)) s).map (Found.andThen ⟨[c], []⟩)
        if greedy then more ++ [.nothing] else .nothing :: more
      else [.nothing] := by
  rw [run_many]
  by_cases hc : p c = true
  · simp [again, hc]
  · simp [again, hc]

theorem run_many_one_nil (greedy : Bool) (p : Char → Bool) :
    run (.many greedy (.one p)) [] = [.nothing] := by
  rw [run_many]
  simp [again]

/-- A repetition over single characters takes none but those. -/
theorem mem_run_many_one {greedy : Bool} {p : Char → Bool} (h : m ∈ (Re.many greedy (.one p)).run s) :
    (∀ c ∈ m.taken, p c = true) ∧ m.groups = [] := by
  induction s generalizing m with
  | nil =>
    rw [run_many_one_nil] at h
    obtain rfl := List.mem_singleton.mp h
    simp
  | cons c s ih =>
    have hcase : m = .nothing ∨ (p c = true ∧
        ∃ a ∈ (Re.many greedy (.one p)).run s, Found.andThen ⟨[c], []⟩ a = m) := by
      rw [run_many_one_cons] at h
      by_cases hc : p c = true
      · cases greedy with
        | true =>
          simp only [hc, if_true, List.mem_append, List.mem_map, List.mem_singleton] at h
          rcases h with h | h
          · exact .inr ⟨hc, h⟩
          · exact .inl h
        | false =>
          simp only [hc, if_true, Bool.false_eq_true, if_false, List.mem_cons, List.mem_map] at h
          rcases h with h | h
          · exact .inl h
          · exact .inr ⟨hc, h⟩
      · rw [if_neg hc] at h
        exact .inl (List.mem_singleton.mp h)
    rcases hcase with rfl | ⟨hc, a, ha, rfl⟩
    · simp
    · obtain ⟨hall, hgroups⟩ := ih ha
      simp only [Found.andThen_taken, Found.andThen_groups, hgroups, List.append_nil, and_true,
        List.singleton_append]
      exact List.forall_mem_cons.mpr ⟨hc, hall⟩

theorem mem_run_many_one_of {greedy : Bool} {p : Char → Bool} {u : Str}
    (h : ∀ c ∈ u, p c = true) (rest : Str) : ⟨u, []⟩ ∈ (Re.many greedy (.one p)).run (u ++ rest) := by
  induction u with
  | nil =>
    rw [run_many]
    cases greedy with
    | true => exact List.mem_append_right _ (List.mem_singleton.mpr rfl)
    | false => exact List.mem_cons_self
  | cons c u ih =>
    have hc : p c = true := h c List.mem_cons_self
    have hmore : (⟨c :: u, []⟩ : Found) ∈
        ((Re.many greedy (.one p)).run (u ++ rest)).map (Found.andThen ⟨[c], []⟩) :=
      List.mem_map.mpr ⟨_, ih fun d hd => h d (List.mem_cons_of_mem c hd), rfl⟩
    rw [List.cons_append, run_many_one_cons, if_pos hc]
    cases greedy with
    | true => exact List.mem_append_left _ hmore
    | false => exact List.mem_cons_of_mem _ hmore

/-- A greedy repetition takes as many characters as it can. -/
theorem run_many_one_head (p : Char → Bool) (s : Str) :
    ((Re.many true (.one p)).run s).head? = some ⟨s.takeWhile p, []⟩ := by
  induction s with
  | nil =>
    rw [run_many_one_nil]
    rfl
  | cons c s ih =>
    rw [run_many_one_cons]
    by_cases hc : p c = true
    · simp [hc, ih, Found.andThen]
    · simp [hc, Found.nothing]

/-- A lazy repetition takes nothing to begin with. -/
theorem run_many_lazy_head : ((Re.many false r).run s).head? = some .nothing := by
  rw [run_many]
  rfl

/-! ## Fixed text -/

theorem run_text (w s : Str) : (text w).run s = if w <+: s then [⟨w, []⟩] else [] := by
  induction w generalizing s with
  | nil => simp [text, Found.nothing]
  | cons c w ih =>
    cases s with
    | nil => simp [text, run_cat]
    | cons d s =>
      rw [text, run_cat, run_one_cons]
      by_cases hd : d = c
      · subst hd
        simp only [beq_self_eq_true, if_true, List.flatMap_singleton, List.length_singleton,
          List.drop_succ_cons, List.drop_zero, ih, List.cons_prefix_cons, true_and]
        by_cases hw : w <+: s
        · simp [hw, Found.andThen]
        · simp [hw]
      · have hc : ¬ c = d := fun h => hd h.symm
        simp [hd, hc, List.cons_prefix_cons]

theorem run_cat_text (w s : Str) : run (.cat (text w) t) s =
    if w <+: s then (t.run (s.drop w.length)).map (Found.andThen ⟨w, []⟩) else [] := by
  rw [run_cat, run_text]
  by_cases h : w <+: s
  · simp [h]
  · simp [h]

/-! ## The parts of a match

A match of expressions in a row cuts the text: what each takes, then what is left. -/

/-- The expression can match `m` with `rest` left behind it. -/
def Matches (r : Re) (m : Found) (rest : Str) : Prop := m ∈ r.run (m.taken ++ rest)

theorem mem_run_iff : m ∈ r.run s ↔ ∃ rest, s = m.taken ++ rest ∧ r.Matches m rest := by
  constructor
  · intro h
    obtain ⟨rest, hrest⟩ := taken_isPrefix h
    refine ⟨rest, hrest.symm, ?_⟩
    rwa [Matches, hrest]
  · rintro ⟨rest, rfl, h⟩
    exact h

theorem matches_cat {rest : Str} : (Re.cat r t).Matches m rest ↔
    ∃ a b, r.Matches a (b.taken ++ rest) ∧ t.Matches b rest ∧ m = a.andThen b := by
  unfold Matches
  rw [mem_run_cat]
  constructor
  · rintro ⟨a, ha, b, hb, rfl⟩
    rw [Found.andThen_taken, List.append_assoc] at ha hb
    rw [List.drop_left] at hb
    exact ⟨a, b, ha, hb, rfl⟩
  · rintro ⟨a, b, ha, hb, rfl⟩
    refine ⟨a, ?_, b, ?_, rfl⟩
    · rwa [Found.andThen_taken, List.append_assoc]
    · rwa [Found.andThen_taken, List.append_assoc, List.drop_left]

theorem matches_one {p : Char → Bool} {rest : Str} :
    (Re.one p).Matches m rest ↔ ∃ c, p c = true ∧ m = ⟨[c], []⟩ := by
  unfold Matches
  rw [mem_run_one]
  constructor
  · rintro ⟨c, -, hc, rfl⟩
    exact ⟨c, hc, rfl⟩
  · rintro ⟨c, hc, rfl⟩
    exact ⟨c, rfl, hc, rfl⟩

theorem matches_many_one {greedy : Bool} {p : Char → Bool} {rest : Str} :
    (Re.many greedy (.one p)).Matches m rest ↔ ∃ u, (∀ c ∈ u, p c = true) ∧ m = ⟨u, []⟩ := by
  constructor
  · intro h
    obtain ⟨hall, hgroups⟩ := mem_run_many_one h
    exact ⟨m.taken, hall, by rw [← hgroups]⟩
  · rintro ⟨u, hall, rfl⟩
    exact mem_run_many_one_of hall rest

theorem matches_someLazy_one {p : Char → Bool} {rest : Str} :
    (Re.someLazy (.one p)).Matches m rest ↔
      ∃ u, u ≠ [] ∧ (∀ c ∈ u, p c = true) ∧ m = ⟨u, []⟩ := by
  rw [someLazy, matches_cat]
  constructor
  · rintro ⟨a, b, ha, hb, rfl⟩
    obtain ⟨c, hc, rfl⟩ := matches_one.mp ha
    obtain ⟨u, hu, rfl⟩ := matches_many_one.mp hb
    exact ⟨c :: u, List.cons_ne_nil c u, List.forall_mem_cons.mpr ⟨hc, hu⟩, rfl⟩
  · rintro ⟨u, hne, hall, rfl⟩
    obtain ⟨c, u, rfl⟩ := List.exists_cons_of_ne_nil hne
    obtain ⟨hc, hu⟩ := List.forall_mem_cons.mp hall
    exact ⟨_, _, matches_one.mpr ⟨c, hc, rfl⟩, matches_many_one.mpr ⟨u, hu, rfl⟩, rfl⟩

theorem matches_text {w rest : Str} : (text w).Matches m rest ↔ m = ⟨w, []⟩ := by
  unfold Matches
  rw [run_text]
  constructor
  · intro h
    split at h
    · exact List.mem_singleton.mp h
    · cases h
  · rintro rfl
    rw [if_pos (List.prefix_append w rest)]
    exact List.mem_singleton.mpr rfl

theorem matches_group {n : Nat} {rest : Str} :
    (Re.group n r).Matches m rest ↔ ∃ a, r.Matches a rest ∧ m = a.close n := by
  unfold Matches
  rw [run_group, List.mem_map]
  constructor
  · rintro ⟨a, ha, rfl⟩
    exact ⟨a, ha, rfl⟩
  · rintro ⟨a, ha, rfl⟩
    exact ⟨a, ha, rfl⟩

theorem matches_times_one {p : Char → Bool} {n : Nat} {rest : Str} :
    (Re.times n (.one p)).Matches m rest ↔
      ∃ u, u.length = n ∧ (∀ c ∈ u, p c = true) ∧ m = ⟨u, []⟩ := by
  induction n generalizing m with
  | zero =>
    unfold Matches
    constructor
    · intro h
      obtain rfl := List.mem_singleton.mp h
      exact ⟨[], rfl, by simp, rfl⟩
    · rintro ⟨u, hu, -, rfl⟩
      obtain rfl := List.length_eq_zero_iff.mp hu
      exact List.mem_singleton.mpr rfl
  | succ n ih =>
    rw [times, matches_cat]
    constructor
    · rintro ⟨a, b, ha, hb, rfl⟩
      obtain ⟨c, hc, rfl⟩ := matches_one.mp ha
      obtain ⟨u, hlength, hu, rfl⟩ := ih.mp hb
      exact ⟨c :: u, by rw [List.length_cons, hlength], List.forall_mem_cons.mpr ⟨hc, hu⟩, rfl⟩
    · rintro ⟨u, hlength, hall, rfl⟩
      obtain ⟨c, u, rfl⟩ := List.exists_cons_of_length_eq_add_one hlength
      obtain ⟨hc, hu⟩ := List.forall_mem_cons.mp hall
      exact ⟨_, _, matches_one.mpr ⟨c, hc, rfl⟩,
        ih.mpr ⟨u, Nat.succ.inj hlength, hu, rfl⟩, rfl⟩

/-! ## Alternatives

What is left behind a match depends on the last thing an expression does: an alternative
that ends with `$` leaves nothing, or a line feed. -/

theorem matches_alt {rest : Str} :
    (Re.alt r t).Matches m rest ↔ r.Matches m rest ∨ t.Matches m rest := by
  unfold Matches
  rw [run_alt, List.mem_append]

theorem matches_atEnd {rest : Str} :
    Re.atEnd.Matches m rest ↔ m = .nothing ∧ (rest = [] ∨ rest = ['\n']) := by
  unfold Matches
  rw [run]
  constructor
  · intro h
    split at h
    case isTrue hend =>
      obtain rfl := List.mem_singleton.mp h
      exact ⟨rfl, hend⟩
    case isFalse => cases h
  · rintro ⟨rfl, hend⟩
    rw [Found.nothing_taken, List.nil_append, if_pos hend]
    exact List.mem_singleton.mpr rfl

/-- The expressions that an expression chooses from, each with what stands in front of it. -/
def alternatives : Re → List Re
  | .alt r t => r.alternatives ++ t.alternatives
  | .cat r t => t.alternatives.map (.cat r)
  | .group n r => r.alternatives.map (.group n)
  | r => [r]

/-- The expression ends with `$`. -/
def endsAtEnd : Re → Bool
  | .atEnd => true
  | .alt r t => r.endsAtEnd && t.endsAtEnd
  | .cat _ t => t.endsAtEnd
  | .group _ r => r.endsAtEnd
  | _ => false

theorem matches_alternatives {rest : Str} :
    r.Matches m rest ↔ ∃ a ∈ r.alternatives, a.Matches m rest := by
  induction r generalizing m rest with
  | alt r t ihr iht =>
    rw [matches_alt, ihr, iht]
    simp only [alternatives, List.mem_append, or_and_right, exists_or]
  | cat r t ihr iht =>
    rw [matches_cat]
    simp only [alternatives, List.mem_map]
    constructor
    · rintro ⟨a, b, ha, hb, rfl⟩
      obtain ⟨c, hc, hcb⟩ := iht.mp hb
      exact ⟨_, ⟨c, hc, rfl⟩, matches_cat.mpr ⟨a, b, ha, hcb, rfl⟩⟩
    · rintro ⟨_, ⟨c, hc, rfl⟩, hm⟩
      obtain ⟨a, b, ha, hb, rfl⟩ := matches_cat.mp hm
      exact ⟨a, b, ha, iht.mpr ⟨c, hc, hb⟩, rfl⟩
  | group n r ih =>
    rw [matches_group]
    simp only [alternatives, List.mem_map]
    constructor
    · rintro ⟨a, ha, rfl⟩
      obtain ⟨c, hc, hca⟩ := ih.mp ha
      exact ⟨_, ⟨c, hc, rfl⟩, matches_group.mpr ⟨a, hca, rfl⟩⟩
    · rintro ⟨_, ⟨c, hc, rfl⟩, hm⟩
      obtain ⟨a, ha, rfl⟩ := matches_group.mp hm
      exact ⟨a, ih.mpr ⟨c, hc, ha⟩, rfl⟩
  | empty => simp [alternatives]
  | one p => simp [alternatives]
  | atEnd => simp [alternatives]
  | many greedy r => simp [alternatives]

theorem rest_of_endsAtEnd {rest : Str} (hend : r.endsAtEnd = true) (h : r.Matches m rest) :
    rest = [] ∨ rest = ['\n'] := by
  induction r generalizing m rest with
  | atEnd => exact (matches_atEnd.mp h).2
  | alt r t ihr iht =>
    rw [endsAtEnd, Bool.and_eq_true] at hend
    rcases matches_alt.mp h with h | h
    · exact ihr hend.1 h
    · exact iht hend.2 h
  | cat r t _ iht =>
    obtain ⟨a, b, -, hb, -⟩ := matches_cat.mp h
    exact iht hend hb
  | group n r ih =>
    obtain ⟨a, ha, -⟩ := matches_group.mp h
    exact ih hend ha
  | empty => cases hend
  | one p => cases hend
  | many greedy r => cases hend

/-- The expression can take `w` from a text that goes on with `rest`. -/
def Takes (r : Re) (w rest : Str) : Prop := ∃ m, r.Matches m rest ∧ m.taken = w

/-- No alternative takes all of the text. But one without `$` at its end takes a beginning of
it, or one with `$` takes what stands in front of a final line feed. -/
def StopsShort (r : Re) (s : Str) : Prop :=
  (∀ a ∈ r.alternatives, ¬ a.Takes s []) ∧
    ∃ a ∈ r.alternatives,
      if a.endsAtEnd then ∃ w, s = w ++ ['\n'] ∧ a.Takes w ['\n']
      else ∃ w rest, rest ≠ [] ∧ s = w ++ rest ∧ a.Takes w rest

theorem takes_alternatives {w rest : Str} :
    r.Takes w rest ↔ ∃ a ∈ r.alternatives, a.Takes w rest := by
  unfold Takes
  constructor
  · rintro ⟨m, hm, rfl⟩
    obtain ⟨a, ha, ham⟩ := matches_alternatives.mp hm
    exact ⟨a, ha, m, ham, rfl⟩
  · rintro ⟨a, ha, m, ham, rfl⟩
    exact ⟨m, matches_alternatives.mpr ⟨a, ha, ham⟩, rfl⟩

theorem stopsShort_iff : r.StopsShort s ↔
    ¬ r.Takes s [] ∧ ∃ w rest, rest ≠ [] ∧ s = w ++ rest ∧ r.Takes w rest := by
  have hwhole : (∀ a ∈ r.alternatives, ¬ a.Takes s []) ↔ ¬ r.Takes s [] := by
    rw [takes_alternatives]
    push Not
    rfl
  unfold StopsShort
  rw [hwhole]
  refine and_congr_right fun _ => ⟨?_, ?_⟩
  · rintro ⟨a, ha, hrest⟩
    split at hrest
    · obtain ⟨w, hs, hw⟩ := hrest
      exact ⟨w, ['\n'], by simp, hs, takes_alternatives.mpr ⟨a, ha, hw⟩⟩
    · obtain ⟨w, rest, hne, hs, hw⟩ := hrest
      exact ⟨w, rest, hne, hs, takes_alternatives.mpr ⟨a, ha, hw⟩⟩
  · rintro ⟨w, rest, hne, hs, hw⟩
    obtain ⟨a, ha, hw⟩ := takes_alternatives.mp hw
    refine ⟨a, ha, ?_⟩
    split
    case isTrue hend =>
      obtain ⟨m, hm, rfl⟩ := hw
      obtain rfl := (rest_of_endsAtEnd hend hm).resolve_left hne
      exact ⟨m.taken, hs, m, hm, rfl⟩
    case isFalse => exact ⟨w, rest, hne, hs, hw⟩

/-! ## Which match comes first -/

theorem run_many_lazy_one (p : Char → Bool) (s : Str) :
    (Re.many false (.one p)).run s = (s.takeWhile p).inits.map fun u => ⟨u, []⟩ := by
  induction s with
  | nil =>
    rw [run_many_one_nil]
    rfl
  | cons c s ih =>
    rw [run_many_one_cons]
    by_cases hc : p c = true
    · simp [hc, ih, Found.nothing, Found.andThen]
    · simp [hc, Found.nothing]

/-- The first of the starts of a list that has a value: the shorter ones have none. -/
theorem exists_of_findSome?_inits {α β : Type} {f : List α → Option β} {l : List α} {b : β}
    (h : l.inits.findSome? f = some b) :
    ∃ u, u <+: l ∧ f u = some b ∧ ∀ v, v <+: u → v ≠ u → f v = none := by
  induction l generalizing f with
  | nil =>
    have hf : f [] = some b := by simpa using h
    exact ⟨[], List.nil_prefix, hf, fun v hv hne => absurd (List.prefix_nil.mp hv) hne⟩
  | cons a l ih =>
    rw [List.inits_cons, List.findSome?_cons] at h
    cases hf : f [] with
    | some b' =>
      rw [hf] at h
      obtain rfl := Option.some.inj h
      exact ⟨[], List.nil_prefix, hf, fun v hv hne => absurd (List.prefix_nil.mp hv) hne⟩
    | none =>
      rw [hf, List.findSome?_map] at h
      obtain ⟨u, hu, hvalue, hshorter⟩ := ih h
      refine ⟨a :: u, List.cons_prefix_cons.mpr ⟨rfl, hu⟩, hvalue, ?_⟩
      intro v hv hne
      cases v with
      | nil => exact hf
      | cons a' v =>
        obtain ⟨rfl, htail⟩ := List.cons_prefix_cons.mp hv
        exact hshorter v htail fun heq => hne (by rw [heq])

/-- The match that comes first for `(p+?)t`: the group takes as little as lets the rest match. -/
theorem lazyGroup_head {p : Char → Bool} {n : Nat}
    (h : ((Re.cat (.group n (.someLazy (.one p))) t).run s).head? = some m) :
    ∃ w b rest, s = w ++ rest ∧ w ≠ [] ∧ (∀ c ∈ w, p c = true) ∧ b ∈ t.run rest ∧
      m = Found.andThen ⟨w, [(n, w)]⟩ b ∧
      ∀ v, v <+: w → v ≠ [] → v ≠ w → t.run (s.drop v.length) = [] := by
  cases s with
  | nil => simp [run_cat, run_group, someLazy] at h
  | cons c s =>
    by_cases hc : p c = true
    case neg => simp [run_cat, run_group, someLazy, hc] at h
    case pos =>
      have hgroup : (Re.group n (.someLazy (.one p))).run (c :: s) =
          (s.takeWhile p).inits.map fun u => ⟨c :: u, [(n, c :: u)]⟩ := by
        simp [run_group, someLazy, run_cat, hc, run_many_lazy_one, Found.andThen, Found.close]
      rw [run_cat, hgroup, List.flatMap_map, List.head?_flatMap] at h
      obtain ⟨u, hu, hvalue, hshorter⟩ := exists_of_findSome?_inits h
      obtain ⟨rest, hrest⟩ := hu.trans (List.takeWhile_prefix p)
      obtain ⟨b, hb, rfl⟩ := List.mem_map.mp (List.mem_of_mem_head? hvalue)
      have hall : ∀ d ∈ c :: u, p d = true :=
        List.forall_mem_cons.mpr ⟨hc, fun d hd => List.mem_takeWhile_imp (hu.subset hd)⟩
      refine ⟨c :: u, b, rest, by rw [← hrest, List.cons_append], List.cons_ne_nil c u, hall,
        ?_, rfl, ?_⟩
      · rw [← hrest] at hb
        simpa using hb
      · intro v hv hne hproper
        obtain ⟨d, v, rfl⟩ := List.exists_cons_of_ne_nil hne
        obtain ⟨rfl, htail⟩ := List.cons_prefix_cons.mp hv
        have hnone := hshorter v htail fun heq => hproper (by rw [heq])
        exact List.map_eq_nil_iff.mp (List.head?_eq_none_iff.mp hnone)

end Re

/-- A text is cut at the first of a character in one way. -/
theorem cut_unique {c : Char} {a b x y : Str} (ha : c ∉ a) (hb : c ∉ b)
    (h : a ++ c :: x = b ++ c :: y) : a = b ∧ x = y := by
  rcases List.append_eq_append_iff.mp h with ⟨u, rfl, hu⟩ | ⟨u, rfl, hu⟩
  · cases u with
    | nil => exact ⟨by simp, by simpa using hu⟩
    | cons d u =>
      obtain ⟨rfl, -⟩ := List.cons.inj hu
      simp at hb
  · cases u with
    | nil => exact ⟨by simp, by simpa using hu.symm⟩
    | cons d u =>
      obtain ⟨rfl, -⟩ := List.cons.inj hu
      simp at ha

/-! ## Searching a text -/

/-- A compiled expression. `attempts before s` are its ways to match at a place of a text
with `before` in front of the place and `s` behind it. -/
structure Pattern where
  groups : Nat
  groupindex : List (Str × Nat)
  attempts : Str → Str → List Found
  attempts_isPrefix : ∀ before s, ∀ m ∈ attempts before s, m.taken <+: s

/-- An expression that does not look at what is in front of it. -/
def Re.pattern (r : Re) (groups : Nat) : Pattern where
  groups := groups
  groupindex := []
  attempts _ s := r.run s
  attempts_isPrefix _ _ _ h := Re.taken_isPrefix h

/-- What a search makes of a text: characters it goes past and matches. -/
inductive Piece where
  | skipped (c : Char)
  | found (m : Found)
  deriving DecidableEq, Repr

def Piece.text : Piece → Str
  | .skipped c => [c]
  | .found m => m.taken

def Piece.found? : Piece → Option Found
  | .skipped _ => none
  | .found m => some m

namespace Pattern

variable (p : Pattern)

/-- `p.match(s)`. -/
def matchStart (s : Str) : Option Found := (p.attempts [] s).head?

/-- `p.fullmatch(s)`. -/
def fullmatch (s : Str) : Option Found := (p.attempts [] s).find? (·.taken = s)

/-- The matches that start at a place. Behind an empty match one that takes something is
looked for at the same place. -/
def hits (before s : Str) : List Found :=
  match (p.attempts before s).head? with
  | none => []
  | some m =>
    if m.taken = [] then m :: ((p.attempts before s).find? (·.taken ≠ [])).toList else [m]

/-- How far the matches at a place reach. -/
def reach (before s : Str) : Nat := ((p.hits before s).flatMap (·.taken)).length

/-- The pieces of a text, the next `skip` characters of which belong to a match. -/
def scan : Str → Nat → Str → List Piece
  | before, _, [] => (p.hits before []).map .found
  | before, skip + 1, c :: s => scan (before ++ [c]) skip s
  | before, 0, c :: s =>
    (p.hits before (c :: s)).map .found ++
      match p.reach before (c :: s) with
      | 0 => .skipped c :: scan (before ++ [c]) 0 s
      | n + 1 => scan (before ++ [c]) n s

/-- `p.finditer(s)`. -/
def finditer (s : Str) : List Found := (p.scan [] 0 s).filterMap Piece.found?

/-- `p.sub(template, s)`, for what the template makes of a match. -/
def sub (expand : Found → Str) (s : Str) : Str :=
  (p.scan [] 0 s).flatMap fun piece =>
    match piece with
    | .skipped c => [c]
    | .found m => expand m

variable {p} {before s t : Str} {m : Found}

/-- The pattern can take `w` from the start of a text that goes on with `rest`. -/
def Takes (p : Pattern) (w rest : Str) : Prop := ∃ m ∈ p.attempts [] (w ++ rest), m.taken = w

/-- The pattern can take a beginning of the text, with something left, but not the text. -/
def StopsShort (p : Pattern) (s : Str) : Prop :=
  ¬ p.Takes s [] ∧ ∃ w rest, rest ≠ [] ∧ s = w ++ rest ∧ p.Takes w rest

theorem matchStart_isSome : (p.matchStart s).isSome = true ↔
    ∃ w rest, s = w ++ rest ∧ p.Takes w rest := by
  rw [matchStart, List.isSome_head?]
  constructor
  · intro hne
    obtain ⟨m, hm⟩ := List.exists_mem_of_ne_nil _ hne
    obtain ⟨rest, rfl⟩ := p.attempts_isPrefix [] s m hm
    exact ⟨m.taken, rest, rfl, m, hm, rfl⟩
  · rintro ⟨w, rest, rfl, m, hm, -⟩
    exact List.ne_nil_of_mem hm

theorem fullmatch_isSome : (p.fullmatch s).isSome = true ↔ p.Takes s [] := by
  simp [fullmatch, List.find?_isSome, Takes]

/-- `match` and `fullmatch` agree on the texts in which the pattern does not stop short. -/
theorem matchStart_iff_fullmatch :
    ((p.matchStart s).isSome = true ↔ (p.fullmatch s).isSome = true) ↔ ¬ p.StopsShort s := by
  rw [matchStart_isSome, fullmatch_isSome]
  constructor
  · rintro hagree ⟨hwhole, w, rest, -, rfl, hw⟩
    exact hwhole (hagree.mp ⟨w, rest, rfl, hw⟩)
  · intro hshort
    constructor
    · rintro ⟨w, rest, rfl, hw⟩
      by_contra hwhole
      refine hshort ⟨hwhole, w, rest, ?_, rfl, hw⟩
      rintro rfl
      rw [List.append_nil] at hwhole
      exact hwhole hw
    · intro hwhole
      exact ⟨s, [], (List.append_nil s).symm, hwhole⟩

/-- A pattern that reads an expression at the start of a text. -/
theorem stopsShort_of_expression {r : Re} (h : p.attempts [] = r.run) :
    p.StopsShort s ↔ r.StopsShort s := by
  have htakes : ∀ w rest, p.Takes w rest ↔ r.Takes w rest := by
    intro w rest
    unfold Takes Re.Takes Re.Matches
    rw [h]
    constructor
    · rintro ⟨m, hm, rfl⟩
      exact ⟨m, hm, rfl⟩
    · rintro ⟨m, hm, rfl⟩
      exact ⟨m, hm, rfl⟩
  rw [Re.stopsShort_iff]
  simp only [StopsShort, htakes]

theorem mem_attempts_of_mem_hits (h : m ∈ p.hits before s) : m ∈ p.attempts before s := by
  unfold hits at h
  split at h
  · cases h
  · rename_i a ha
    have hfirst : a ∈ p.attempts before s := List.mem_of_mem_head? ha
    split at h
    · rcases List.mem_cons.mp h with rfl | h
      · exact hfirst
      · exact List.mem_of_find?_eq_some (Option.mem_toList.mp h)
    · obtain rfl := List.mem_singleton.mp h
      exact hfirst

/-- Only one of the matches at a place takes something, and it comes last. -/
theorem hits_text (p : Pattern) (before s : Str) :
    (p.hits before s).flatMap (·.taken) = s.take (p.reach before s) := by
  have hpre : ∀ m ∈ p.hits before s, m.taken = s.take m.taken.length := by
    intro m hm
    obtain ⟨rest, hrest⟩ := p.attempts_isPrefix before s m (mem_attempts_of_mem_hits hm)
    rw [← hrest, List.take_left]
  have hshape : p.hits before s = [] ∨ (∃ m, p.hits before s = [m]) ∨
      ∃ a b, p.hits before s = [a, b] ∧ a.taken = [] := by
    unfold hits
    split
    · exact .inl rfl
    · rename_i a _
      split
      · rename_i hempty
        cases (p.attempts before s).find? (·.taken ≠ []) with
        | none => exact .inr (.inl ⟨a, rfl⟩)
        | some b => exact .inr (.inr ⟨a, b, rfl, hempty⟩)
      · exact .inr (.inl ⟨a, rfl⟩)
  rcases hshape with h | ⟨m, h⟩ | ⟨a, b, h, hempty⟩
  · simp [reach, h]
  · have hm := hpre m (by simp [h])
    simpa [reach, h] using hm
  · have hb := hpre b (by simp [h])
    simpa [reach, h, hempty] using hb

theorem reach_le (p : Pattern) (before s : Str) : p.reach before s ≤ s.length := by
  have htext := congrArg List.length (hits_text p before s)
  rw [List.length_take] at htext
  have hreach : p.reach before s = min (p.reach before s) s.length := htext
  omega

/-- The pieces make up the text. -/
theorem scan_text (p : Pattern) (before : Str) {skip : Nat} (h : skip ≤ s.length) :
    (p.scan before skip s).flatMap Piece.text = s.drop skip := by
  have hfound : ∀ ms : List Found,
      (ms.map Piece.found).flatMap Piece.text = ms.flatMap (·.taken) := by
    intro ms
    rw [List.flatMap_map]
    rfl
  induction s generalizing before skip with
  | nil =>
    obtain rfl : skip = 0 := Nat.le_zero.mp h
    rw [scan, hfound, hits_text]
    simp
  | cons c s ih =>
    cases skip with
    | succ skip => exact ih _ (Nat.le_of_succ_le_succ h)
    | zero =>
      rw [scan, List.flatMap_append, hfound, hits_text, List.drop_zero]
      have hle := reach_le p before (c :: s)
      split
      · rename_i h0
        rw [h0, List.flatMap_cons, ih _ (Nat.zero_le _)]
        rfl
      · rename_i n hn
        rw [hn] at hle ⊢
        rw [ih _ (Nat.le_of_succ_le_succ hle), List.take_succ_cons, List.cons_append,
          List.take_append_drop]

/-- The characters of a match are gone past. -/
theorem scan_skip (t s : Str) : p.scan before t.length (t ++ s) = p.scan (before ++ t) 0 s := by
  induction t generalizing before with
  | nil => simp
  | cons c t ih =>
    rw [List.length_cons, List.cons_append, scan, ih]
    simp

/-- Every match that is found is one at some place. -/
theorem mem_hits_of_mem_scan {skip : Nat} (h : .found m ∈ p.scan before skip s) :
    ∃ before' s', m ∈ p.hits before' s' := by
  induction s generalizing before skip with
  | nil =>
    rw [scan] at h
    obtain ⟨a, ha, heq⟩ := List.mem_map.mp h
    obtain rfl := Piece.found.inj heq
    exact ⟨before, [], ha⟩
  | cons c s ih =>
    cases skip with
    | succ skip => exact ih h
    | zero =>
      rw [scan] at h
      rcases List.mem_append.mp h with h | h
      · obtain ⟨a, ha, heq⟩ := List.mem_map.mp h
        obtain rfl := Piece.found.inj heq
        exact ⟨before, c :: s, ha⟩
      · split at h
        · rcases List.mem_cons.mp h with h | h
          · cases h
          · exact ih h
        · exact ih h

theorem scan_hit (h : p.hits before (t ++ s) = [m]) (htaken : m.taken = t) (hne : t ≠ []) :
    p.scan before 0 (t ++ s) = .found m :: p.scan (before ++ t) 0 s := by
  obtain ⟨c, t, rfl⟩ := List.exists_cons_of_ne_nil hne
  rw [List.cons_append] at h ⊢
  have hreach : p.reach before (c :: (t ++ s)) = t.length + 1 := by simp [reach, h, htaken]
  rw [scan, h, hreach]
  simp only [List.map_cons, List.map_nil, List.singleton_append]
  rw [scan_skip, List.append_assoc, List.singleton_append]

theorem scan_miss {c : Char} (h : p.hits before (c :: s) = []) :
    p.scan before 0 (c :: s) = .skipped c :: p.scan (before ++ [c]) 0 s := by
  have hreach : p.reach before (c :: s) = 0 := by simp [reach, h]
  rw [scan, h, hreach]
  rfl

/-- A first match that takes something is the only one at its place. -/
theorem hits_of_head (h : (p.attempts before s).head? = some m) (hne : m.taken ≠ []) :
    p.hits before s = [m] := by
  rw [hits, h]
  simp [hne]

theorem hits_eq_nil (h : p.attempts before s = []) : p.hits before s = [] := by
  simp [hits, h]

end Pattern

end PyRe
