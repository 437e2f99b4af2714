import Mathlib
import Lisplet.Proofs.RoundTrip
import Lisplet.Proofs.Viability

/-!
# The names that a reading interns

A reading that ends, well or not, has interned the names that stand in the text it has gone over.
These are found without reading: a flat scan tells strings and comments from the rest (`Zone`), and
the words are the longest runs of letters outside of them, the three literals apart (`symbolWords`).

The machine of `Stages` is compared with that scan character by character.  A word is interned when
the first character after it comes, so the machine owes one word at most: the one it is in
(`Stage.letters`).

* `Step.Keeps`        what a character does to names and table, with the word before it;
* `heeds_next`        the same for whole texts;
* `accounts_outcome`  a reading from any stage on, by induction on the text that is left;
* `gains_internAll`   interning names one by one adds the new ones, in the order of their first use.
-/

namespace Lisplet

open Grammar
open Text (Place)

/-! ## the words of a text -/

/-- what a character of a text belongs to -/
inductive Zone where
  | code
  | comment
  | quoted
  /-- right after a backslash in a string -/
  | escaped
  deriving DecidableEq

def Zone.next : Zone → Char → Zone
  | .code, c => if c = '"' then .quoted else if c = ';' then .comment else .code
  | .comment, c => if c = '\n' then .code else .comment
  | .quoted, c => if c = '"' then .code else if c = '\\' then .escaped else .quoted
  | .escaped, _ => .quoted

/-- the text with a blank for every character of a string or a comment -/
def visible : Zone → List Char → List Char
  | _, [] => []
  | z, c :: cs => (if z = .code then c else ' ') :: visible (z.next c) cs

/-- the longest runs of letters -/
def letterRuns (cs : List Char) : List (List Char) :=
  (cs.splitOnP fun c => decide (¬ IsLetter c)).filter fun run => decide (run ≠ [])

/-- the runs that name symbols -/
def wordsOf (cs : List Char) : List String :=
  ((letterRuns cs).map String.ofList).filter fun word => decide (word ∉ ["true", "false", "nil"])

/-- the names of symbols outside strings and comments, with repetitions -/
def symbolWords (text : List Char) : List String := wordsOf (visible .code text)

theorem letterRuns_of_letters {w : List Char} (h : ∀ c ∈ w, IsLetter c) :
    letterRuns w = [w].filter fun run => decide (run ≠ []) := by
  rw [letterRuns, List.splitOnP_eq_singleton]
  intro c hc
  simp [h c hc]

theorem wordsOf_nil : wordsOf [] = [] := by
  rw [wordsOf, letterRuns_of_letters fun c hc => absurd hc List.not_mem_nil]
  rfl

/-- a word ends at the first character that is no letter -/
theorem wordsOf_append_cons {w : List Char} (h : ∀ c ∈ w, IsLetter c) {x : Char} (hx : ¬ IsLetter x)
    (cs : List Char) : wordsOf (w ++ x :: cs) = wordsOf w ++ wordsOf cs := by
  have hsplit : letterRuns (w ++ x :: cs) = letterRuns w ++ letterRuns cs := by
    rw [letterRuns_of_letters h, letterRuns, letterRuns, List.splitOnP_append_cons_of_forall_mem]
    · rw [← List.filter_append]
      rfl
    · intro c hc
      simp [h c hc]
    · simp [hx]
  simp only [wordsOf, hsplit, List.map_append, List.filter_append]

theorem names_nameValue (table : Nat) {w : List Char} (hne : w ≠ []) (h : ∀ c ∈ w, IsLetter c) :
    (nameValue table (String.ofList w)).names = wordsOf w := by
  have hw : wordsOf w = if String.ofList w ∈ ["true", "false", "nil"] then []
      else [String.ofList w] := by
    rw [wordsOf, letterRuns_of_letters h, List.filter_cons_of_pos (by simp [hne])]
    show List.filter _ [String.ofList w] = _
    rw [List.filter_singleton]
    split <;> simp_all
  rw [hw]
  unfold nameValue
  split
  · next ht => rw [ht, if_pos (by decide)]; rfl
  split
  · next hf => rw [hf, if_pos (by decide)]; rfl
  split
  · next hn => rw [hn, if_pos (by decide)]; rfl
  · next ht hf hn =>
    rw [if_neg (by simp [ht, hf, hn])]
    rfl

/-! ## what tables gain -/

/-- the symbols of the table stay what they are, and the names it has not had come after those it
has had, each once, in the order in which they first appear -/
structure SymbolTable.Gains (t : SymbolTable) (names : List String) (t' : SymbolTable) : Prop where
  symbols : ∀ name, t'.symbol name = t.symbol name
  names : t'.names = t.names ++ (names.filter fun name => decide (name ∉ t.names)).eraseDups

theorem SymbolTable.gains_internAll (t : SymbolTable) (names : List String) :
    t.Gains names (t.internAll names) where
  symbols name := by rw [SymbolTable.symbol, t.id_internAll, SymbolTable.symbol]
  names := by
    induction names generalizing t with
    | nil => exact (List.append_nil _).symm
    | cons a names ih =>
      rw [internAll_cons]
      by_cases ha : a ∈ t.names
      · rw [t.intern_of_mem ha, ih t, List.filter_cons_of_neg (by simp [ha])]
      · have hnew := t.names_intern_of_not_mem ha
        have hrest : (names.filter fun b => decide (b ∉ t.names ++ [a]))
            = names.filter fun b => !b == a && decide (b ∉ t.names) := by
          apply List.filter_congr
          intro b _
          by_cases hb : b = a <;> simp [hb]
        rw [ih (t.intern a), hnew, hrest, List.filter_cons_of_pos (by simp [ha]),
          List.eraseDups_cons,
          List.append_assoc, List.filter_filter]
        rfl

/-! ## the names of an unfinished reading -/

/-- the names in the lists that are open, from left to right -/
def openNames : List (List Value) → List String
  | [] => []
  | items :: outer => openNames outer ++ Value.namesOf items.reverse

theorem Value.namesOf_append (vs ws : List Value) :
    Value.namesOf (vs ++ ws) = Value.namesOf vs ++ Value.namesOf ws := by
  induction vs with
  | nil => rw [List.nil_append, Value.namesOf_nil, List.nil_append]
  | cons v vs ih =>
    rw [List.cons_append, Value.namesOf_cons, Value.namesOf_cons, ih, List.append_assoc]

theorem openNames_item (v : Value) (items : List Value) (outer : List (List Value)) :
    openNames ((v :: items) :: outer) = openNames (items :: outer) ++ v.names := by
  have hv : Value.namesOf [v]
      = v.names := by rw [Value.namesOf_cons, Value.namesOf_nil, List.append_nil]
  rw [openNames, openNames, List.reverse_cons, Value.namesOf_append, hv, List.append_assoc]

theorem openNames_close (items outer : List Value) (others : List (List Value)) :
    openNames ((.list items.reverse :: outer) :: others)
      = openNames (items :: outer :: others) := by
  rw [openNames_item, Value.names_list]
  rfl

theorem openNames_open (opened : List (List Value)) :
    openNames ([] :: opened) = openNames opened := by
  rw [openNames, List.reverse_nil, Value.namesOf_nil, List.append_nil]

def Mode.zone : Mode → Zone
  | .gap => .code
  | .comment => .comment
  | .name _ => .code
  | .number _ => .code
  | .text _ => .quoted
  | .escape _ => .escaped

/-- the letters of the word that is being read, last first -/
def Mode.letters : Mode → List Char
  | .name taken => taken
  | _ => []

/-- a name has a letter, and no other characters -/
def Mode.Spelt : Mode → Prop
  | .name taken => taken ≠ [] ∧ ∀ c ∈ taken, IsLetter c
  | _ => True

/-- What a character does, after the names `before` and the letters `w` of a word, in the zone `z`:
it goes on with the word, or the word is interned with the table `t`. -/
inductive Step.Keeps (z : Zone) (before : List String) (t : SymbolTable) (w : List Char)
    (c : Char) : Step → Prop
  | letter {p m'} (hz : z = .code) (hc : IsLetter c) (hm : p.mode = .name (c :: w))
      (hn : openNames p.opened = before) (ht : m'.table = t) : Keeps z before t w c (.more p m')
  | more {p m'} (hc : z = .code → ¬ IsLetter c) (hm : ∀ taken, p.mode ≠ .name taken)
      (hz : p.mode.zone = z.next c) (hn : openNames p.opened = before ++ wordsOf w.reverse)
      (ht : m'.table = t.internAll (wordsOf w.reverse)) :
      Keeps z before t w c (.more p m')
  | closed {v m'} (hc : z = .code → ¬ IsLetter c) (hz : z.next c = .code)
      (hn : v.names = before ++ wordsOf w.reverse)
      (ht : m'.table = t.internAll (wordsOf w.reverse)) : Keeps z before t w c (.closed v m')
  | ended {v m'} (hz : z = .code) (hn : v.names = before ++ wordsOf w.reverse)
      (ht : m'.table = t.internAll (wordsOf w.reverse)) : Keeps z before t w c (.ended v m')
  | refused {e m'} (he : e.cause ≠ .integerRange)
      (ht : m'.table = t.internAll (wordsOf w.reverse)) :
      Keeps z before t w c (.refused e m')
  | spoilt {e m'} (hc : z = .code → ¬ IsLetter c)
      (ht : m'.table = t.internAll (wordsOf w.reverse)) :
      Keeps z before t w c (.spoilt e m')

section
variable {lim : Limits} {m : Marks} {c : Char} {before : List String} {t : SymbolTable}
  {w : List Char} {s : Step}

theorem wordsOf_none : wordsOf ([] : List Char).reverse = [] := wordsOf_nil

theorem internAll_none (t : SymbolTable) : t.internAll (wordsOf ([] : List Char).reverse) = t := by
  rw [wordsOf_none]
  rfl

/-- after a word has ended, the character is looked at as if there had been none -/
theorem Step.Keeps.of_ended {names : List String} {t' : SymbolTable} (hw : IsLetter c → w = [])
    (hnames : names = before ++ wordsOf w.reverse) (ht' : t' = t.internAll (wordsOf w.reverse))
    (h : Step.Keeps .code names t' [] c s) : Step.Keeps .code before t w c s := by
  have hn' : names ++ wordsOf ([] : List Char).reverse = before ++ wordsOf w.reverse := by
    rw [wordsOf_none, List.append_nil, hnames]
  have hi' : t'.internAll (wordsOf ([] : List Char).reverse) = t.internAll (wordsOf w.reverse) := by
    rw [internAll_none, ht']
  cases h with
  | letter hz hc hm hn ht =>
    obtain rfl := hw hc
    rw [wordsOf_none, List.append_nil] at hnames
    rw [internAll_none] at ht'
    exact .letter hz hc hm (hn.trans hnames) (ht.trans ht')
  | more hc hm hz hn ht => exact .more hc hm hz (hn.trans hn') (ht.trans hi')
  | closed hc hz hn ht => exact .closed hc hz (hn.trans hn') (ht.trans hi')
  | ended hz hn ht => exact .ended hz (hn.trans hn') (ht.trans hi')
  | refused he ht => exact .refused he (ht.trans hi')
  | spoilt hc ht => exact .spoilt hc (ht.trans hi')

/-- where no word is being read, nothing has to be interned -/
theorem keeps_more {z : Zone} {p : Pending} {m' : Marks} (hc : z = .code → ¬ IsLetter c)
    (hm : ∀ taken, p.mode ≠ .name taken) (hz : p.mode.zone = z.next c)
    (hn : openNames p.opened = before) (ht : m'.table = t) :
    Step.Keeps z before t [] c (.more p m') :=
  .more hc hm hz (by rw [hn, wordsOf_none, List.append_nil]) (by rw [ht, internAll_none])

theorem keeps_closed {z : Zone} {v : Value} {m' : Marks} (hc : z = .code → ¬ IsLetter c)
    (hz : z.next c = .code) (hn : v.names = before) (ht : m'.table = t) :
    Step.Keeps z before t [] c (.closed v m') :=
  .closed hc hz (by rw [hn, wordsOf_none, List.append_nil]) (by rw [ht, internAll_none])

theorem keeps_refused {z : Zone} {e : ParseError} {m' : Marks} (he : e.cause ≠ .integerRange)
    (ht : m'.table = t) :
    Step.Keeps z before t [] c (.refused e m') :=
  .refused he (by rw [ht, internAll_none])

theorem keeps_spoilt {z : Zone} {e : ParseError} {m' : Marks} (hc : z = .code → ¬ IsLetter c)
    (ht : m'.table = t) :
    Step.Keeps z before t [] c (.spoilt e m') :=
  .spoilt hc (by rw [ht, internAll_none])

theorem zone_next_code {p : Char → Prop} (hc : p c) (hq : ¬ p '"') (hs : ¬ p ';') :
    Zone.code.next c = .code := by
  have hne : ∀ d, ¬ p d → c ≠ d := fun d hd he => hd (he ▸ hc)
  rw [Zone.next, if_neg (hne '"' hq), if_neg (hne ';' hs)]

theorem keeps_digitStep (opened : List (List Value)) (n : Nat) (hc : IsNumeral c) :
    Step.Keeps .code (openNames opened) m.table [] c (digitStep lim opened n m c) := by
  have hl : ¬ IsLetter c := fun hl => absurd (Char.le_trans hl.1 hc.2) (by decide)
  have hz : Zone.code.next c = .code := zone_next_code hc (by decide) (by decide)
  show Step.Keeps _ _ _ _ _
      (if Integer.fits lim.width (n * 10 + (c.toNat - '0'.toNat)) then _ else _)
  split
  · exact keeps_more (fun _ => hl) nofun hz.symm rfl rfl
  · exact keeps_spoilt (fun _ => hl) rfl

theorem keeps_closeStep (opened : List (List Value)) :
    Step.Keeps .code (openNames opened) m.table [] ')' (closeStep opened m ')') := by
  have hl : ¬ IsLetter ')' := by decide
  cases opened with
  | nil => exact keeps_refused nofun rfl
  | cons items outer =>
    cases outer with
    | nil =>
      refine keeps_closed (fun _ => hl) rfl ?_ rfl
      rw [Value.names_list]
      rfl
    | cons outer others =>
      exact keeps_more (fun _ => hl) nofun rfl (openNames_close items outer others) rfl

theorem keeps_gapStep (opened : List (List Value)) :
    Step.Keeps .code (openNames opened) m.table [] c (gapStep lim opened m c) := by
  by_cases hl : IsLetter c
  · rw [gapStep_letter lim opened m hl]
    exact .letter rfl hl rfl rfl rfl
  by_cases hd : IsNumeral c
  · rw [gapStep_numeral lim opened m hd]
    exact keeps_digitStep opened 0 hd
  have hlow : c.isLower = false := Bool.eq_false_iff.2 fun h => hl ((isLower_iff c).1 h)
  have hdig : c.isDigit = false := Bool.eq_false_iff.2 fun h => hd ((isDigit_iff c).1 h)
  unfold gapStep
  rw [hlow, hdig]
  split
  · next hg =>
    have hz : Zone.code.next c = .code := by
      rcases (isGap_iff c).1 hg with rfl | rfl | rfl | rfl <;> rfl
    exact keeps_more (fun _ => hl) nofun hz.symm rfl rfl
  split
  · next hs =>
    subst hs
    exact keeps_more (fun _ => hl) nofun rfl rfl rfl
  split
  · next hs =>
    subst hs
    exact keeps_closeStep opened
  split
  · next hs =>
    subst hs
    split
    · exact keeps_more (fun _ => hl) nofun rfl (openNames_open opened) rfl
    · exact keeps_refused nofun rfl
  split
  · next hs =>
    subst hs
    exact keeps_more (fun _ => hl) nofun rfl rfl rfl
  · exact keeps_refused nofun rfl

theorem keeps_itemStep (opened : List (List Value)) (v : Value) :
    Step.Keeps .code (openNames opened ++ v.names) m.table [] c (itemStep lim opened v m c) := by
  cases opened with
  | nil =>
    refine .ended rfl ?_ (internAll_none _).symm
    rw [wordsOf_none, List.append_nil]
    rfl
  | cons items outer =>
    rw [← openNames_item]
    exact keeps_gapStep _

theorem names_nameEnd (m : Marks) {taken : List Char} (h : (Mode.name taken).Spelt) :
    (nameEnd m taken).1.names = wordsOf taken.reverse := by
  rw [nameEnd_fst]
  exact names_nameValue _ (mt List.reverse_eq_nil_iff.1 h.1) fun c hc =>
    h.2 c (List.mem_reverse.1 hc)

/-- one character of an expression -/
theorem keeps_step (lim : Limits) (p : Pending) (m : Marks) (c : Char) (hp : p.mode.Spelt) :
    Step.Keeps p.mode.zone (openNames p.opened) m.table p.mode.letters c (step lim p m c) := by
  obtain ⟨opened, mode⟩ := p
  cases mode with
  | gap => exact keeps_gapStep opened
  | comment =>
    refine keeps_more nofun ?_ ?_ rfl rfl
    · show ∀ taken, (if c = '\n' then Mode.gap else Mode.comment) ≠ .name taken
      split <;> exact nofun
    · show Mode.zone (if c = '\n' then Mode.gap else Mode.comment) = if c = '\n' then .code
          else .comment
      split <;> rfl
  | name taken =>
    show Step.Keeps .code _ _ taken c (if c.isLower then _ else _)
    split
    · next hl => exact .letter rfl ((isLower_iff c).1 hl) rfl rfl rfl
    · next hl =>
      have hnames := names_nameEnd m hp
      refine .of_ended (fun hc => absurd ((isLower_iff c).2 hc) hl) (by rw [← hnames]) ?_
        (keeps_itemStep opened _)
      rw [table_nameEnd, hnames]
  | number n =>
    show Step.Keeps .code _ _ [] c (if c.isDigit then _ else _)
    split
    · next hd => exact keeps_digitStep opened n ((isDigit_iff c).1 hd)
    · have hnames : openNames opened = openNames opened ++ (Value.int n).names :=
        (List.append_nil _).symm
      rw [hnames]
      exact keeps_itemStep (m := (numberEnd m n).2) opened (numberEnd m n).1
  | text taken =>
    show Step.Keeps .quoted _ _ [] c (if c = '"' then textEnd opened taken m c else _)
    split
    · next hq =>
      subst hq
      cases opened with
      | nil => exact keeps_closed nofun rfl rfl rfl
      | cons items outer =>
        refine keeps_more nofun nofun rfl ?_ rfl
        exact (openNames_item ..).trans (List.append_nil _)
    split
    · next hq hb =>
      subst hb
      exact keeps_more nofun nofun rfl rfl rfl
    · next hq hb =>
      refine keeps_more nofun nofun ?_ rfl rfl
      show Zone.quoted = if c = '"' then Zone.code else if c = '\\' then .escaped else .quoted
      rw [if_neg hq, if_neg hb]
  | escape taken =>
    unfold step
    cases Text.escapeMeaning? c with
    | some d => exact keeps_more nofun nofun rfl rfl rfl
    | none => exact keeps_spoilt nofun rfl

end

/-! ## whole texts -/

def gapZone (inComment : Bool) : Zone := if inComment then .comment else .code

namespace Stage

def zone : Stage → Zone
  | .before b => gapZone b
  | .inside p => p.mode.zone
  | .after _ b => gapZone b

/-- the letters of the word that is being read, last first -/
def letters : Stage → List Char
  | .inside p => p.mode.letters
  | _ => []

/-- the names of the symbols that have been read -/
def names : Stage → List String
  | .before _ => []
  | .inside p => openNames p.opened
  | .after v _ => v.names

def Spelt : Stage → Prop
  | .inside p => p.mode.Spelt
  | _ => True

theorem Spelt.letters {stage : Stage} (h : stage.Spelt) :
    ∀ c ∈ stage.letters.reverse, IsLetter c := by
  intro c hc
  rw [List.mem_reverse] at hc
  cases stage with
  | inside p =>
    obtain ⟨opened, mode⟩ := p
    cases mode with
    | name taken => exact h.2 c hc
    | _ => exact absurd hc List.not_mem_nil
  | _ => exact absurd hc List.not_mem_nil

end Stage

namespace Progress

/-- what a character does to the names of a reading: it goes on with a word, or ends one, or is
refused -/
inductive Heeds (pr : Progress) (c : Char) : Except Refusal Progress → Prop
  | letter {pr'} (hz : pr.stage.zone = .code) (hc : IsLetter c)
      (hl : pr'.stage.letters = c :: pr.stage.letters) (hz' : pr'.stage.zone = .code)
      (hs : pr'.stage.Spelt) (hn : pr'.stage.names = pr.stage.names)
      (ht : pr'.marks.table = pr.marks.table) : Heeds pr c (.ok pr')
  | other {pr'} (hc : pr.stage.zone = .code → ¬ IsLetter c) (hl : pr'.stage.letters = [])
      (hz' : pr'.stage.zone = pr.stage.zone.next c) (hs : pr'.stage.Spelt)
      (hn : pr'.stage.names = pr.stage.names ++ wordsOf pr.stage.letters.reverse)
      (ht : pr'.marks.table = pr.marks.table.internAll (wordsOf pr.stage.letters.reverse)) :
      Heeds pr c (.ok pr')
  | refused {f} (hc : f.error.cause = .integerRange → pr.stage.zone = .code → ¬ IsLetter c)
      (ht : f.table = pr.marks.table.internAll (wordsOf pr.stage.letters.reverse)) :
      Heeds pr c (.error f)

section
variable {lim : Limits} {whole : Whole} {m : Marks} {c : Char}

theorem zone_goesOn {b b' : Bool} (h : gapGoesOn b c = some b') :
    (gapZone b = .code → ¬ IsLetter c) ∧ (gapZone b).next c = gapZone b' := by
  unfold gapGoesOn at h
  cases b with
  | true =>
    injection h with h
    subst h
    refine ⟨nofun, ?_⟩
    show (if c = '\n' then Zone.code else Zone.comment) = if decide (c ≠ '\n') then .comment
        else .code
    by_cases hc : c = '\n' <;> simp [hc]
  | false =>
    rw [if_neg Bool.false_ne_true] at h
    split at h
    · next hg =>
      injection h with h
      subst h
      rcases (isGap_iff c).1 hg with rfl | rfl | rfl | rfl <;> exact ⟨fun _ => by decide, rfl⟩
    · split at h
      · next hs =>
        injection h with h
        subst h hs
        exact ⟨fun _ => by decide, rfl⟩
      · cases h

/-- after an expression that has ended before the character -/
theorem heeds_afterStep {pr : Progress} {v : Value} {b : Bool} (hz : pr.stage.zone = gapZone b)
    (hn : v.names = pr.stage.names ++ wordsOf pr.stage.letters.reverse)
    (ht : m.table = pr.marks.table.internAll (wordsOf pr.stage.letters.reverse)) :
    Heeds pr c (afterStep v b m c) := by
  unfold afterStep
  cases hg : gapGoesOn b c with
  | some b' =>
    obtain ⟨hc, hnext⟩ := zone_goesOn hg
    rw [← hz] at hc hnext
    exact .other hc rfl hnext.symm trivial hn ht
  | none => exact .refused nofun ht

theorem heeds_insideStep {pr : Progress} {p : Pending} (hp : p.mode.Spelt)
    (hz : pr.stage.zone = p.mode.zone) (hl : pr.stage.letters = p.mode.letters)
    (hn : pr.stage.names = openNames p.opened) (hm : pr.marks = m) :
    Heeds pr c (insideStep lim p m c) := by
  have hk := keeps_step lim p m c hp
  have hstage : (Stage.inside p).Spelt := hp
  subst hm
  rw [← hz, ← hl, ← hn] at hk
  unfold insideStep
  generalize step lim p pr.marks c = s at hk
  cases hk with
  | @letter p' m' hz hc hm hn ht =>
    have hp' : p'.mode.letters = c :: pr.stage.letters ∧ p'.mode.zone = .code ∧ p'.mode.Spelt := by
      rw [hm]
      refine ⟨rfl, rfl, List.cons_ne_nil _ _, List.forall_mem_cons.2 ⟨hc, fun d hd => ?_⟩⟩
      rw [hl] at hd
      exact hstage.letters d (List.mem_reverse.2 hd)
    exact .letter hz hc hp'.1 hp'.2.1 hp'.2.2 hn ht
  | @more p' m' hc hm hz hn ht =>
    have hp' : p'.mode.letters = [] ∧ p'.mode.Spelt := by
      obtain ⟨opened, mode⟩ := p'
      cases mode with
      | name taken => exact absurd rfl (hm taken)
      | _ => exact ⟨rfl, trivial⟩
    exact .other hc hp'.1 hz hp'.2 hn ht
  | ended hz hn ht => exact heeds_afterStep hz hn ht
  | closed hc hz hn ht => exact .other hc rfl hz.symm trivial hn ht
  | refused he ht => exact .refused (fun h => absurd h he) ht
  | spoilt hc ht => exact .refused (fun _ => hc) ht

/-- one character of a text -/
theorem heeds_next (lim : Limits) (whole : Whole) (pr : Progress) (c : Char) (hs : pr.stage.Spelt) :
    Heeds pr c (next lim whole pr c) := by
  obtain ⟨stage, m⟩ := pr
  have hnone := (internAll_none m.table).symm
  cases stage with
  | before b =>
    show Heeds _ c (beforeStep lim whole b m c)
    unfold beforeStep
    cases hg : gapGoesOn b c with
    | some b' =>
      obtain ⟨hc, hnext⟩ := zone_goesOn hg
      refine .other hc rfl hnext.symm trivial ?_ hnone
      show [] = [] ++ wordsOf ([] : List Char).reverse
      rw [wordsOf_none, List.append_nil]
    | none =>
      obtain ⟨rfl, _⟩ := gapGoesOn_eq_none.1 hg
      show Heeds _ c (if whole.opens c then _ else _)
      split
      · exact heeds_insideStep trivial rfl rfl rfl rfl
      · exact .refused nofun hnone
  | inside p => exact heeds_insideStep hs rfl rfl rfl rfl
  | after v b =>
    refine heeds_afterStep rfl ?_ hnone
    show v.names = v.names ++ wordsOf ([] : List Char).reverse
    rw [wordsOf_none, List.append_nil]

/-- the verdict at the end of a text, by the word it ends with -/
def Settles (pr : Progress) : Except Refusal (Value × SymbolTable) → Prop
  | .ok a => a.1.names = pr.stage.names ++ wordsOf pr.stage.letters.reverse ∧
      a.2 = pr.marks.table.internAll (wordsOf pr.stage.letters.reverse)
  | .error f => f.table = pr.marks.table.internAll (wordsOf pr.stage.letters.reverse)

theorem settles_itemAtEnd {pr : Progress} {opened : List (List Value)} {v : Value}
    (hn : openNames opened ++ v.names = pr.stage.names ++ wordsOf pr.stage.letters.reverse)
    (ht : m.table = pr.marks.table.internAll (wordsOf pr.stage.letters.reverse)) :
    Settles pr (told (itemAtEnd lim opened v m)) := by
  cases opened with
  | nil => exact ⟨hn, ht⟩
  | cons items outer => exact ht

theorem settles_finish (lim : Limits) (whole : Whole) (pr : Progress) (hs : pr.stage.Spelt) :
    Settles pr (finish lim whole pr) := by
  obtain ⟨stage, m⟩ := pr
  have hnone := (internAll_none m.table).symm
  cases stage with
  | before b => exact hnone
  | inside p =>
    obtain ⟨opened, mode⟩ := p
    cases mode with
    | gap => exact hnone
    | comment => exact hnone
    | name taken =>
      refine settles_itemAtEnd ?_ ?_
      · rw [names_nameEnd m hs]
        rfl
      · rw [table_nameEnd, names_nameEnd m hs]
        rfl
    | number n =>
      refine settles_itemAtEnd (v := .int n) ?_ hnone
      show openNames opened ++ [] = openNames opened ++ wordsOf ([] : List Char).reverse
      rw [wordsOf_none]
    | text taken => exact hnone
    | escape taken => exact hnone
  | after v b =>
    refine ⟨?_, hnone⟩
    show v.names = v.names ++ wordsOf ([] : List Char).reverse
    rw [wordsOf_none, List.append_nil]

/-- A reading goes on from `pr` over the text `cs`: what it has read at the end, and what the table
has then, are the words of `cs` after those it had read.  If it fails, they are the words before the
place of the error. -/
def Accounts (pr : Progress) (cs : List Char) : Except Refusal (Value × SymbolTable) → Prop
  | .ok a => a.1.names
      = pr.stage.names ++ wordsOf (pr.stage.letters.reverse ++ visible pr.stage.zone cs) ∧
      a.2 = pr.marks.table.internAll
        (wordsOf (pr.stage.letters.reverse ++ visible pr.stage.zone cs))
  | .error f => f.error.cause ≠ .nestedTooDeeply → ∃ a, a <+: cs ∧
      f.error.place = pr.marks.place.afterAll a ∧
      f.table = pr.marks.table.internAll
        (wordsOf (pr.stage.letters.reverse ++ visible pr.stage.zone a))

theorem not_letter_visible {z : Zone} (hc : z = .code → ¬ IsLetter c) :
    ¬ IsLetter (if z = .code then c else ' ') := by
  split
  · next hz => exact hc hz
  · decide

/-- a character that ends a word leaves the words of the text after it -/
theorem words_visible_cons {stage : Stage} (hs : stage.Spelt)
    (hc : stage.zone = .code → ¬ IsLetter c) (cs : List Char) :
    wordsOf (stage.letters.reverse ++ visible stage.zone (c :: cs))
      = wordsOf stage.letters.reverse ++ wordsOf (visible (stage.zone.next c) cs) := by
  rw [visible]
  exact wordsOf_append_cons hs.letters (not_letter_visible hc) _

theorem accounts_refused {pr : Progress} {f : Refusal} (hs : pr.stage.Spelt)
    (hn : next lim whole pr c = .error f) (cs : List Char) : Accounts pr (c :: cs) (.error f) := by
  intro hdeep
  have hh := heeds_next lim whole pr c hs
  rw [hn] at hh
  cases hh with
  | refused hc ht =>
    rcases (next_error hn).error with he | he | ⟨cause, _, he⟩
    · rw [he] at hdeep
      exact absurd rfl hdeep
    · -- the digit that makes an integer too great is taken
      rw [he] at hc
      refine ⟨[c], ⟨cs, rfl⟩, by rw [he]; rfl, ?_⟩
      have hv : visible (pr.stage.zone.next c) [] = [] := rfl
      rw [words_visible_cons hs (hc rfl), hv, wordsOf_nil, List.append_nil]
      exact ht
    · refine ⟨[], List.nil_prefix, by rw [he]; rfl, ?_⟩
      show f.table = pr.marks.table.internAll (wordsOf (pr.stage.letters.reverse ++ []))
      rw [List.append_nil]
      exact ht

theorem accounts_outcome (lim : Limits) (whole : Whole) (pr : Progress) (cs : List Char)
    (hs : pr.stage.Spelt) :
    Accounts pr cs (outcome lim whole pr cs) := by
  induction cs generalizing pr with
  | nil =>
    have ho : outcome lim whole pr [] = finish lim whole pr := rfl
    have hend := settles_finish lim whole pr hs
    have hv : pr.stage.letters.reverse ++ visible pr.stage.zone [] = pr.stage.letters.reverse :=
      List.append_nil _
    rw [ho]
    cases hf : finish lim whole pr with
    | ok a =>
      rw [hf] at hend
      show _ ∧ _
      rw [hv]
      exact hend
    | error f =>
      rw [hf] at hend
      obtain ⟨_, cause, _, he⟩ := finish_error hf
      intro _
      refine ⟨[], List.nil_prefix, by rw [he]; rfl, ?_⟩
      rw [hv]
      exact hend
  | cons c cs ih =>
    rw [outcome_cons]
    cases hn : next lim whole pr c with
    | error f => exact accounts_refused hs hn cs
    | ok pr' =>
      show Accounts pr (c :: cs) (outcome lim whole pr' cs)
      have hh := heeds_next lim whole pr c hs
      have hplace := (next_ok hn).place
      rw [hn] at hh
      -- the words after the character, whatever is left of the text
      obtain ⟨ended, hs', hnames, htable, hwords⟩ : ∃ ended, pr'.stage.Spelt ∧
          pr'.stage.names = pr.stage.names ++ ended ∧
            pr'.marks.table = pr.marks.table.internAll ended ∧
          ∀ a, wordsOf (pr.stage.letters.reverse ++ visible pr.stage.zone (c :: a))
            = ended ++ wordsOf (pr'.stage.letters.reverse ++ visible pr'.stage.zone a) := by
        cases hh with
        | letter hz hc hl hz' hs' hn ht =>
          refine ⟨[], hs', by rw [hn, List.append_nil], ht, fun a => ?_⟩
          have hv : visible Zone.code (c :: a) = c :: visible .code a := by
            show (if Zone.code = .code then c else ' ') :: visible (Zone.code.next c) a = _
            rw [if_pos rfl, zone_next_code hc (by decide) (by decide)]
          rw [hz, hv, hl, hz', List.reverse_cons, List.append_assoc]
          rfl
        | other hc hl hz' hs' hn ht =>
          refine ⟨_, hs', hn, ht, fun a => ?_⟩
          rw [words_visible_cons hs hc, hl, hz']
          rfl
      have hrest := ih pr' hs'
      cases ho : outcome lim whole pr' cs with
      | ok a =>
        rw [ho] at hrest
        refine ⟨?_, ?_⟩
        · rw [hrest.1, hnames, hwords, List.append_assoc]
        · rw [hrest.2, htable, hwords, SymbolTable.internAll_append]
      | error f =>
        rw [ho] at hrest
        intro hdeep
        obtain ⟨a, hpre, hp, ht⟩ := hrest hdeep
        refine ⟨c :: a, List.cons_prefix_cons.2 ⟨rfl, hpre⟩, ?_, ?_⟩
        · rw [hp, hplace]
          rfl
        · rw [ht, htable, hwords, SymbolTable.internAll_append]

end

end Progress

/-! ## what a reading interns -/

/-- What a reading of a text has interned.  A text that is read has its words in the table, and they
are the names of the tree.  A text that is not read has those before the one place where the error
is reported. -/
structure InternsWords {α : Type} (tree : α → Value) (table : SymbolTable) (text : String)
    (answer : EStateM.Result ParseError Reader α) : Prop where
  read : ∀ a r, answer = .ok a r → table.Gains (symbolWords text.toList) r.marks.table ∧
    symbolWords text.toList = (tree a).names ∧
    ∀ s s', .symbol s ∈ (tree a).leaves → .symbol s' ∈ (tree a).leaves → (s = s' ↔ s.name = s'.name)
  failed : ∀ e r, answer = .error e r → e.cause ≠ .nestedTooDeeply →
    ∃ k, ReportedAt text e k ∧ (∀ j, ReportedAt text e j → j = k) ∧
      table.Gains (symbolWords (text.toList.take k)) r.marks.table

theorem table_of_nameValue {t : Nat} {name : String} {s : Symbol}
    (h : .symbol s ∈ (nameValue t name).leaves) :
    s.table = t := by
  unfold nameValue at h
  split at h
  · cases List.mem_singleton.1 h
  split at h
  · cases List.mem_singleton.1 h
  split at h
  · cases List.mem_singleton.1 h
  · cases List.mem_singleton.1 h
    rfl

mutual
/-- the symbols that are read are those of the table -/
theorem Grammar.Sexp.table_of_symbol {width t : Nat} {a b : List Char} {v : Value} {s : Symbol} :
    Sexp width t a v b → .symbol s ∈ v.leaves → s.table = t
  | .list _ hi => fun h => Items.table_of_symbol hi (by rwa [Value.leaves_list] at h)
  | .string _ => fun h => by cases List.mem_singleton.1 h
  | .name _ _ _ => table_of_nameValue
  | .integer _ _ _ _ => fun h => by cases List.mem_singleton.1 h

theorem Grammar.Items.table_of_symbol {width t : Nat} {a b : List Char} {vs : List Value}
    {s : Symbol} :
    Items width t a vs b → .symbol s ∈ Value.leavesOf vs → s.table = t
  | .nil _ => fun h => by
    rw [Value.leavesOf] at h
    exact absurd h List.not_mem_nil
  | .cons hs _ hi => fun h => by
    have hhead := Sexp.table_of_symbol (s := s) hs
    have htail := Items.table_of_symbol (s := s) hi
    rw [Value.leavesOf] at h
    exact (List.mem_append.1 h).elim hhead htail
end

theorem interns_of_expression {table : SymbolTable} {lim : Limits} {text : String} {v : Value}
    {r : Reader} (h : Reading.expression (Reader.ofText text table lim) = .ok v r) :
    table.Gains (symbolWords text.toList) r.marks.table ∧ symbolWords text.toList = v.names ∧
      ∀ s s', .symbol s ∈ v.leaves → .symbol s' ∈ v.leaves → (s = s' ↔ s.name = s'.name) := by
  have hfollow := Progress.follows_expression table lim text
  have haccount :=
    Progress.accounts_outcome lim .expression (Progress.start table) text.toList trivial
  beta_reduce at hfollow
  rw [h] at hfollow
  cases ho : Progress.outcome lim .expression (Progress.start table) text.toList with
  | error f =>
    rw [ho] at hfollow
    cases hfollow
  | ok x =>
    rw [ho] at hfollow haccount
    obtain ⟨hnames, htable⟩ := haccount
    injection hfollow with hfollow
    injection hfollow with hv ht
    refine ⟨?_, ?_, ?_⟩
    · have hgain : r.marks.table = table.internAll (symbolWords text.toList) := ht.trans htable
      rw [hgain]
      exact table.gains_internAll _
    · rw [hv]
      exact hnames.symm
    · intro s s' hs hs'
      obtain ⟨_, _, _, hd, _⟩ := Reading.isExpression_of_expression h
      have htable : s.table = s'.table :=
        (hd.table_of_symbol hs).trans (hd.table_of_symbol hs').symm
      refine ⟨fun he => by rw [he], fun hname => ?_⟩
      cases s
      cases s'
      cases htable
      cases hname
      rfl

/-- an error is reported right after the text whose words are interned -/
theorem Progress.Follows.interns_of_error {α : Type}
    {reads : String → EStateM.Result ParseError Reader α} {lim : Limits} {whole : Whole}
    {table : SymbolTable} {f : Value → α} (h : Follows reads lim whole table f) {text : String}
    {e : ParseError} {r : Reader} (hr : reads text = .error e r)
    (hdeep : e.cause ≠ .nestedTooDeeply) :
    ∃ k, ReportedAt text e k ∧ (∀ j, ReportedAt text e j → j = k) ∧
      table.Gains (symbolWords (text.toList.take k)) r.marks.table := by
  have hfollow := h text
  have haccount := accounts_outcome lim whole (start table) text.toList trivial
  rw [hr] at hfollow
  rw [error_of_told hfollow] at haccount
  obtain ⟨a, hpre, hp, ht⟩ := haccount hdeep
  have htake : text.toList.take a.length = a := (List.prefix_iff_eq_take.1 hpre).symm
  have hat : ReportedAt text e a.length := by
    refine ⟨hpre.length_le, ?_⟩
    rw [Text.placeOf_eq hpre.length_le, htake]
    exact hp
  refine ⟨a.length, hat, fun j hj => reportedAt_unique hj hat, ?_⟩
  have hgain : r.marks.table = table.internAll (symbolWords a) := ht
  rw [hgain, htake]
  exact table.gains_internAll _

/-- **What a reading interns.** Both ways to read a text, whatever the table, the width of the
integers and the number of lists that may be open. -/
theorem readings_intern_words (table : SymbolTable) (lim : Limits) (text : String) :
    InternsWords id table text (Reading.expression (Reader.ofText text table lim)) ∧
      InternsWords .list table text (Reading.unit (Reader.ofText text table lim)) where
  left :=
    { read := fun _ _ h => interns_of_expression h
      failed := fun _ _ h hdeep => (Progress.follows_expression table lim).interns_of_error
        h hdeep }
  right :=
    { read := fun _ _ h => interns_of_expression ((Reading.unit_eq_ok_iff _ _ _).1 h)
      failed := fun _ _ h hdeep => (Progress.follows_unit table lim).interns_of_error h hdeep }

end Lisplet
