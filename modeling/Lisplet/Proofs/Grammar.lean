import Mathlib
import Lisplet.Proofs.Tree

/-!
# The grammar of texts

What a text means, said without a machine.  A relation `X a v b` says that the text `a` starts with
an `X` of value `v` and goes on with `b`; so a whole text is one that goes on with nothing.

* `Gap`       blanks and comments; a comment ends before a line feed or with the text;
* `Quoted`    the rest of a string literal, after its opening quote;
* `Sexp`      an expression: a list, a string, a name or an integer;
* `Items`     expressions with gaps after them, as they stand in a list.

A name is a run of letters that no letter follows, and an integer a run of digits that no digit
follows.  That condition is on the text that comes next (`Stops`), so two neighbours need no gap
between them as long as they are told apart: `(1a"s"b)` has four items.
-/

namespace Lisplet.Grammar

/-! ## characters -/

/-- what separates expressions -/
def IsBlank (c : Char) : Prop := c = ' ' ∨ c = '\t' ∨ c = '\r' ∨ c = '\n'

/-- what names consist of -/
def IsLetter (c : Char) : Prop := 'a' ≤ c ∧ c ≤ 'z'

/-- what integers consist of -/
def IsNumeral (c : Char) : Prop := '0' ≤ c ∧ c ≤ '9'

instance : DecidablePred IsBlank := fun c =>
  inferInstanceAs (Decidable (c = ' ' ∨ c = '\t' ∨ c = '\r' ∨ c = '\n'))

instance : DecidablePred IsLetter := fun c => inferInstanceAs (Decidable ('a' ≤ c ∧ c ≤ 'z'))

instance : DecidablePred IsNumeral := fun c => inferInstanceAs (Decidable ('0' ≤ c ∧ c ≤ '9'))

/-- a backslash followed by the first character stands for the second -/
inductive Escape : Char → Char → Prop
  | lineFeed : Escape 'n' '\n'
  | tab : Escape 't' '\t'
  | carriageReturn : Escape 'r' '\r'
  | quote : Escape '"' '"'
  | backslash : Escape '\\' '\\'

/-- a text that does not start with such a character -/
def Stops (p : Char → Prop) : List Char → Prop
  | [] => True
  | c :: _ => ¬ p c

/-! ## texts -/

/-- blanks and comments -/
inductive Gap : List Char → List Char → Prop
  | none (a : List Char) : Gap a a
  | blank {c : Char} {a b : List Char} : IsBlank c → Gap a b → Gap (c :: a) b
  | comment {body a b : List Char} :
    (∀ c ∈ body, c ≠ '\n') → Stops (fun c => c ≠ '\n') a → Gap a b → Gap (';' :: (body ++ a)) b

/-- a string literal after its opening quote, and the characters it stands for -/
inductive Quoted : List Char → List Char → List Char → Prop
  | close (a : List Char) : Quoted ('"' :: a) [] a
  | plain {c : Char} {a s b : List Char} :
    c ≠ '"' → c ≠ '\\' → Quoted a s b → Quoted (c :: a) (c :: s) b
  | escape {e c : Char} {a s b : List Char} :
    Escape e c → Quoted a s b → Quoted ('\\' :: e :: a) (c :: s) b

/-- the value of a name: three names are literals, and all others are symbols of the table -/
def nameValue (table : Nat) (name : String) : Value :=
  if name = "true" then .bool true
  else if name = "false" then .bool false
  else if name = "nil" then .nil
  else .symbol ⟨table, name⟩

/-- the value of a run of digits, leading zeros allowed -/
def decimal (cs : List Char) : Nat := Nat.ofDigitChars 10 cs 0

mutual
/-- an expression, with integers of the given width and symbols of the given table -/
inductive Sexp (width table : Nat) : List Char → Value → List Char → Prop
  | list {a b c : List Char} {vs : List Value} :
    Gap a b → Items width table b vs (')' :: c) → Sexp width table ('(' :: a) (.list vs) c
  | string {a s b : List Char} :
    Quoted a s b → Sexp width table ('"' :: a) (.str (String.ofList s)) b
  | name {cs a : List Char} :
    cs ≠ [] → (∀ c ∈ cs, IsLetter c) → Stops IsLetter a →
    Sexp width table (cs ++ a) (nameValue table (String.ofList cs)) a
  | integer {cs a : List Char} :
    cs ≠ [] → (∀ c ∈ cs, IsNumeral c) → Stops IsNumeral a →
      (decimal cs : Int) ≤ 2 ^ (width - 1) - 1 →
    Sexp width table (cs ++ a) (.int (decimal cs)) a

/-- expressions, each with a gap after it -/
inductive Items (width table : Nat) : List Char → List Value → List Char → Prop
  | nil (a : List Char) : Items width table a [] a
  | cons {a b c d : List Char} {v : Value} {vs : List Value} :
    Sexp width table a v b → Gap b c → Items width table c vs d → Items width table a (v :: vs) d
end

/-- a whole text that is one expression with gaps around it -/
def IsExpression (width table : Nat) (text : List Char) (v : Value) : Prop :=
  ∃ a b, Gap text a ∧ Sexp width table a v b ∧ Gap b []

/-- a whole text that is one list with gaps around it -/
def IsUnit (width table : Nat) (text : List Char) (vs : List Value) : Prop :=
  ∃ a b c, Gap text ('(' :: a) ∧ Gap a b ∧ Items width table b vs (')' :: c) ∧ Gap c []

/-! ## the starts and lengths of texts -/

/-- a text is cut where a run of such characters ends -/
theorem exists_run (p : Char → Prop) [DecidablePred p] (text : List Char) :
    ∃ a b, text = a ++ b ∧ (∀ c ∈ a, p c) ∧ Stops p b := by
  induction text with
  | nil => exact ⟨[], [], rfl, by simp, trivial⟩
  | cons c text ih =>
    by_cases h : p c
    · obtain ⟨a, b, he, ha, hb⟩ := ih
      refine ⟨c :: a, b, by rw [he]; rfl, ?_, hb⟩
      intro d hd
      rcases List.mem_cons.mp hd with rfl | hd
      · exact h
      · exact ha d hd
    · exact ⟨[], c :: text, rfl, by simp, h⟩

/-- a text that starts with such a character starts with a run of them -/
theorem exists_run_of_start {p : Char → Prop} [DecidablePred p] {c : Char} (h : p c)
    (text : List Char) :
    ∃ a b, c :: text = a ++ b ∧ a ≠ [] ∧ (∀ c ∈ a, p c) ∧ Stops p b := by
  obtain ⟨a, b, he, ha, hb⟩ := exists_run p (c :: text)
  refine ⟨a, b, he, ?_, ha, hb⟩
  rintro rfl
  rw [List.nil_append] at he
  subst he
  exact hb h

/-- a text that starts with a run of such characters starts with one of them -/
theorem exists_start {p : Char → Prop} {cs : List Char} (hne : cs ≠ []) (h : ∀ c ∈ cs, p c)
    (a : List Char) : ∃ c b, cs ++ a = c :: b ∧ p c := by
  cases cs with
  | nil => exact absurd rfl hne
  | cons c cs => exact ⟨c, cs ++ a, rfl, h c (List.mem_cons_self ..)⟩

/-- what a gap starts with -/
def OpensGap (c : Char) : Prop := IsBlank c ∨ c = ';'

instance : DecidablePred OpensGap := fun c => inferInstanceAs (Decidable (IsBlank c ∨ c = ';'))

section
variable {width table : Nat} {a b : List Char} {v : Value} {vs : List Value}

/-- no expression starts with what a gap starts with -/
theorem Sexp.stops (h : Sexp width table a v b) : Stops OpensGap a := by
  cases h with
  | list => show ¬ OpensGap '('; decide
  | string => show ¬ OpensGap '"'; decide
  | name hne hc _ =>
    obtain ⟨c, a, he, hl⟩ := exists_start hne hc b
    rw [he]
    rintro ((rfl | rfl | rfl | rfl) | rfl) <;> exact absurd hl (by decide)
  | integer hne hc _ _ =>
    obtain ⟨c, a, he, hl⟩ := exists_start hne hc b
    rw [he]
    rintro ((rfl | rfl | rfl | rfl) | rfl) <;> exact absurd hl (by decide)

/-- what starts with an opening bracket is a list -/
theorem Sexp.list_of_open (h : Sexp width table ('(' :: a) v b) :
    ∃ c vs, v = .list vs ∧ Gap a c ∧ Items width table c vs (')' :: b) := by
  generalize ht : '(' :: a = text at h
  cases h with
  | @list a' c _ vs hg hi =>
    injection ht with _ ht
    subst ht
    exact ⟨c, vs, rfl, hg, hi⟩
  | string => injection ht with ht _; exact absurd ht (by decide)
  | name hne hc _ =>
    obtain ⟨c, a, he, hl⟩ := exists_start hne hc b
    injection ht.trans he with hc _
    exact absurd (hc ▸ hl) (by decide)
  | integer hne hc _ _ =>
    obtain ⟨c, a, he, hl⟩ := exists_start hne hc b
    injection ht.trans he with hc _
    exact absurd (hc ▸ hl) (by decide)

theorem nameValue_ne_list (name : String) : nameValue table name ≠ .list vs := by
  unfold nameValue
  repeat' split
  all_goals exact fun h => by cases h

/-- what has a list as its value starts with an opening bracket -/
theorem Sexp.open_of_list (h : Sexp width table a (.list vs) b) :
    ∃ c d, a = '(' :: c ∧ Gap c d ∧ Items width table d vs (')' :: b) := by
  generalize hv : Value.list vs = v at h
  cases h with
  | @list c d _ ws hg hi =>
    injection hv with hv
    subst hv
    exact ⟨c, d, rfl, hg, hi⟩
  | string => cases hv
  | name => exact absurd hv.symm (nameValue_ne_list _)
  | integer => cases hv

/-- the texts of units are the texts of expressions that are lists -/
theorem isUnit_iff (text : List Char) :
    IsUnit width table text vs ↔ IsExpression width table text (.list vs) := by
  constructor
  · rintro ⟨a, b, c, hg, hg', hi, he⟩
    exact ⟨'(' :: a, c, hg, .list hg' hi, he⟩
  · rintro ⟨a, b, hg, hs, he⟩
    obtain ⟨c, d, rfl, hg', hi⟩ := hs.open_of_list
    exact ⟨c, d, b, hg, hg', hi, he⟩

theorem Gap.length_le (h : Gap a b) : b.length ≤ a.length := by
  induction h with
  | none => exact Nat.le_refl _
  | blank _ _ ih => exact Nat.le_succ_of_le ih
  | comment _ _ _ ih =>
    rw [List.length_cons, List.length_append]
    omega

theorem Quoted.length_lt {s : List Char} (h : Quoted a s b) : b.length < a.length := by
  induction h with
  | close => exact Nat.lt_succ_self _
  | plain _ _ _ ih => exact Nat.lt_succ_of_lt ih
  | escape _ _ ih => exact Nat.lt_succ_of_lt (Nat.lt_succ_of_lt ih)

theorem length_lt_append {cs : List Char} (hne : cs ≠ []) (a : List Char) :
    a.length < (cs ++ a).length := by
  have hc := List.length_pos_iff.2 hne
  rw [List.length_append]
  omega

end

/-- no expression is empty -/
theorem Sexp.ne_nil {width table : Nat} {a b : List Char} {v : Value} (h : Sexp width table a v b) :
    a ≠ [] := by
  cases h with
  | list => exact List.cons_ne_nil _ _
  | string => exact List.cons_ne_nil _ _
  | name hne _ _ => exact List.append_ne_nil_of_left_ne_nil hne _
  | integer hne _ _ _ => exact List.append_ne_nil_of_left_ne_nil hne _

/-- every text starts with a gap that cannot go on -/
theorem exists_gap (text : List Char) : ∃ b, Gap text b ∧ Stops OpensGap b := by
  induction hn : text.length using Nat.strongRecOn generalizing text with
  | ind n ih =>
    cases text with
    | nil => exact ⟨[], .none [], trivial⟩
    | cons c text =>
      by_cases hc : OpensGap c
      · rcases hc with hc | rfl
        · obtain ⟨b, hg, hb⟩ := ih text.length (by rw [← hn]; exact Nat.lt_succ_self _) text rfl
          exact ⟨b, .blank hc hg, hb⟩
        · obtain ⟨body, a, he, hbody, ha⟩ := exists_run (fun c => c ≠ '\n') text
          have hl : a.length < n := by
            rw [← hn, he, List.length_cons, List.length_append]
            omega
          obtain ⟨b, hg, hb⟩ := ih a.length hl a rfl
          exact ⟨b, he ▸ .comment hbody ha hg, hb⟩
      · exact ⟨c :: text, .none _, hc⟩

mutual
theorem Sexp.length_lt {width table : Nat} {a b : List Char} {v : Value} :
    Sexp width table a v b → b.length < a.length
  | .list hg hi => by
    have h₁ := hg.length_le
    have h₂ := Items.length_le hi
    rw [List.length_cons] at h₂ ⊢
    omega
  | .string hq => Nat.lt_succ_of_lt hq.length_lt
  | .name hne _ _ => length_lt_append hne b
  | .integer hne _ _ _ => length_lt_append hne b

theorem Items.length_le {width table : Nat} {a b : List Char} {vs : List Value} :
    Items width table a vs b → b.length ≤ a.length
  | .nil _ => Nat.le_refl _
  | .cons hs hg hi => by
    have h₁ := Sexp.length_lt hs
    have h₂ := hg.length_le
    have h₃ := Items.length_le hi
    omega
end

end Lisplet.Grammar
