import Lisplet.Editor.Index
import Lisplet.Editor.Word

/-!
# The documents of an editor

The texts of documents are kept by a store that belongs to the host: it hears of every document that
is opened, changed or closed, and gives the text of a document.  A workspace is such a store
together with the indexes made of its texts.  When a document is opened or changed, its text is
indexed anew and its diagnostics are published; when it is closed, its index is dropped and none
are.  A document is known by its index: without one, nothing is asked of its text.
-/

namespace Lisplet.Editor

abbrev Addressed (α : Type) := List (String × α)

namespace Addressed

variable {α : Type}

def erase (m : Addressed α) (uri : String) : Addressed α := m.filter fun d => d.1 ≠ uri

def set (m : Addressed α) (uri : String) (a : α) : Addressed α := (uri, a) :: m.erase uri

theorem lookup_erase (m : Addressed α) (uri other : String) :
    (m.erase uri).lookup other = if other = uri then none else m.lookup other := by
  unfold erase
  induction m with
  | nil => simp
  | cons d ds ih =>
    obtain ⟨u, a⟩ := d
    by_cases hu : u = uri
    · rw [List.filter_cons_of_neg (by simp [hu]), ih]
      by_cases ho : other = uri
      · rw [if_pos ho, if_pos ho]
      · have hne : (other == u) = false := by
          rw [hu]
          simpa using ho
        simp [ho, List.lookup_cons, hne]
    · rw [List.filter_cons_of_pos (by simp [hu])]
      by_cases ho : other = u
      · subst ho
        simp [hu]
      · have hne : (other == u) = false := by simpa using ho
        simp only [List.lookup_cons, hne, ih]

theorem lookup_set (m : Addressed α) (uri other : String) (a : α) :
    (m.set uri a).lookup other = if other = uri then some a else m.lookup other := by
  unfold set
  by_cases h : other = uri
  · simp [h]
  · have hne : (other == uri) = false := by simpa using h
    rw [List.lookup_cons, hne, lookup_erase, if_neg h, if_neg h]

end Addressed

/-- a range of text: first line and character, last line and character, counted from zero -/
structure Span where
  startLine : Nat
  startCharacter : Nat
  endLine : Nat
  endCharacter : Nat
  deriving DecidableEq, Repr

structure Published where
  span : Span
  message : String
  deriving DecidableEq, Repr

inductive Role where
  | function
  | value
  deriving DecidableEq, Repr

structure Completion where
  label : String
  role : Role
  detail : Option String
  deriving DecidableEq, Repr

structure Outline where
  name : String
  role : Role
  span : Span
  deriving DecidableEq, Repr

def Definition.role (d : Definition) : Role := if d.params.isSome then .function else .value

def Definition.span (d : Definition) : Span := ⟨d.line, d.column, d.line, d.column + d.name.length⟩

/-- the diagnostics of an index: the character the error is at -/
def Index.diagnostics (i : Index) : List Published :=
  match i.error with
  | none => []
  | some d => [⟨⟨d.place.1, d.place.2, d.place.1, d.place.2 + 1⟩, d.message⟩]

/-! ## documents -/

inductive Notification where
  | opened (uri text : String)
  | changed (uri text : String)
  | closed (uri : String)

/-- how the host keeps the texts of documents -/
structure Store (σ : Type) where
  start : σ
  hear : σ → Notification → σ
  source : σ → String → String

/-- what the host keeps, and the indexes made of it -/
structure Workspace (σ : Type) where
  documents : σ
  indexes : Addressed Index

namespace Workspace

variable {σ : Type}

def new (store : Store σ) : Workspace σ := ⟨store.start, []⟩

def index? (w : Workspace σ) (uri : String) : Option Index := w.indexes.lookup uri

/-- indexes the text of a document: the workspace, and the diagnostics to publish -/
def reindex (store : Store σ) (m : Machine) (w : Workspace σ) (uri : String) :
    Workspace σ × List Published :=
  let i := Index.ofText m (store.source w.documents uri)
  ({ w with indexes := w.indexes.set uri i }, i.diagnostics)

/-- what is done about a document that something is heard of: the store hears of it first -/
def hear (store : Store σ) (m : Machine) (w : Workspace σ) (n : Notification) :
    Workspace σ × List Published :=
  let w := { w with documents := store.hear w.documents n }
  match n with
  | .opened uri _ => w.reindex store m uri
  | .changed uri _ => w.reindex store m uri
  | .closed uri => ({ w with indexes := w.indexes.erase uri }, [])

/-- the addresses of the documents that have an index, sorted -/
def uris (w : Workspace σ) : List String :=
  (w.indexes.map Prod.fst).mergeSort fun a b => decide (a ≤ b)

def hover (store : Store σ) (w : Workspace σ) (uri : String) (line character : Nat) :
    Except Failure (Option String) :=
  match w.index? uri with
  | none => .ok none
  | some i =>
    (wordAt (store.source w.documents uri) line character).map fun word => word.bind i.hover?

/-- the completions of a document: what is known everywhere, then its definitions -/
def completions (w : Workspace σ) (uri : String) : List Completion :=
  signatures.map (fun s => ⟨s.1, .function, some s.2⟩)
    ++ match w.index? uri with
      | none => []
      | some i => i.definitions.map fun e => ⟨e.name, e.role, none⟩

def outline (w : Workspace σ) (uri : String) : Option (List Outline) :=
  (w.index? uri).map fun i => i.definitions.map fun e => ⟨e.name, e.role, e.span⟩

end Workspace

end Lisplet.Editor
