import Mathlib
import Lisplet.Editor.Workspace

/-!
# Documents and their history

A server hears that documents are opened, changed and closed, and is asked about them in between.
The texts are kept by a store of the host, of which one thing is assumed: for a document that is
open it gives the latest text that was heard of (`Store.Faithful`).  The server itself keeps the
indexes, and has published diagnostics.  All that it answers follows the last thing heard of a
document, and what is heard of other documents makes no difference.

* `Orderly`                              documents are changed and closed only while they are open;
* `follows_hear`, `follows_after`        indexes, for one notification and for a history of them;
* `Follows.answersAlike`                 answers come from the text and the index of the document
  asked about;
* `published_hear`, `published_after`    the diagnostics;
* `faithful_latestTexts`                 a store that is faithful.
-/

namespace Lisplet.Editor

namespace Notification

def uri : Notification → String
  | opened uri _ => uri
  | changed uri _ => uri
  | closed uri => uri

/-- the text of the document from then on; a document that is closed has none -/
def text? : Notification → Option String
  | opened _ text => some text
  | changed _ text => some text
  | closed _ => none

/-- the diagnostics of the document from then on; a document that is closed has none -/
def diagnostics (m : Machine) (n : Notification) : List Published :=
  n.text?.elim [] fun text => (Index.ofText m text).diagnostics

/-- only an open document can be changed or closed -/
def needsOpen : Notification → Bool
  | opened _ _ => false
  | changed _ _ => true
  | closed _ => true

end Notification

/-! ## histories -/

def lastAbout (uri : String) (ns : List Notification) : Option Notification :=
  (ns.filter fun n => n.uri = uri).getLast?

/-- the latest text of a document that is open -/
def latest (uri : String) (ns : List Notification) : Option String :=
  (lastAbout uri ns).bind Notification.text?

/-- documents are changed and closed only while they are open -/
def Orderly (ns : List Notification) : Prop :=
  ∀ before n, before ++ [n] <+: ns → n.needsOpen = true → ∃ text, latest n.uri before = some text

theorem Orderly.of_prefix {ns ns' : List Notification} (h : Orderly ns') (hp : ns <+: ns') :
    Orderly ns := fun before n hn => h before n (hn.trans hp)

theorem orderly_nil : Orderly [] := by
  intro before n hp
  exact absurd (List.prefix_nil.1 hp) (List.append_ne_nil_of_right_ne_nil _ (List.cons_ne_nil n []))

theorem Orderly.concat {ns : List Notification} {n : Notification} (h : Orderly ns)
    (hn : n.needsOpen = true → ∃ text, latest n.uri ns = some text) : Orderly (ns ++ [n]) := by
  intro before k hp
  rcases List.prefix_concat_iff.1 hp with he | hp
  · obtain ⟨rfl, hk⟩ := List.append_inj' he rfl
    obtain rfl : k = n := List.head_eq_of_cons_eq hk
    exact hn
  · exact h before k hp

theorem lastAbout_concat (uri : String) (ns : List Notification) (n : Notification) :
    lastAbout uri (ns ++ [n]) = if uri = n.uri then some n else lastAbout uri ns := by
  unfold lastAbout
  rw [List.filter_append]
  by_cases h : uri = n.uri
  · rw [if_pos h, List.filter_cons_of_pos (by simp [h]), List.filter_nil, List.getLast?_concat]
  · rw [if_neg h, List.filter_cons_of_neg (by simpa using Ne.symm h), List.filter_nil,
      List.append_nil]

theorem latest_concat (uri : String) (ns : List Notification) (n : Notification) :
    latest uri (ns ++ [n]) = if uri = n.uri then n.text? else latest uri ns := by
  unfold latest
  rw [lastAbout_concat]
  split
  · rfl
  · rfl

/-! ## stores -/

section
variable {σ : Type}

/-- what a store keeps after a history -/
def Store.after (store : Store σ) (ns : List Notification) : σ := ns.foldl store.hear store.start

theorem Store.after_concat (store : Store σ) (ns : List Notification) (n : Notification) :
    store.after (ns ++ [n]) = store.hear (store.after ns) n := by
  rw [after, List.foldl_concat]
  rfl

/-- after every orderly history, the store gives the latest text of every document that is open -/
structure Store.Faithful (store : Store σ) : Prop where
  source : ∀ ns uri text, Orderly ns → latest uri ns = some text →
    store.source (store.after ns) uri = text

/-! ## servers -/

/-- a workspace, and all diagnostics published so far with their documents, last first -/
structure Server (σ : Type) where
  workspace : Workspace σ
  published : Addressed (List Published)

namespace Server

def new (store : Store σ) : Server σ := ⟨.new store, []⟩

/-- what a server does when it hears of a document: it publishes what the workspace says -/
def hear (store : Store σ) (m : Machine) (s : Server σ) (n : Notification) : Server σ :=
  let r := s.workspace.hear store m n
  ⟨r.1, (n.uri, r.2) :: s.published⟩

def after (store : Store σ) (m : Machine) (ns : List Notification) : Server σ :=
  ns.foldl (hear store m) (new store)

/-- the diagnostics of a document that were published last -/
def lastPublished (s : Server σ) (uri : String) : Option (List Published) := s.published.lookup uri

theorem after_concat (store : Store σ) (m : Machine) (ns : List Notification) (n : Notification) :
    after store m (ns ++ [n]) = (after store m ns).hear store m n := by
  rw [after, List.foldl_concat]
  rfl

end Server

/-! ## indexes -/

/-- what is done about one notification, if the store gives the text that was heard -/
theorem Workspace.hear_eq {store : Store σ} {m : Machine} {w : Workspace σ} {n : Notification}
    (h : ∀ text, n.text? = some text → store.source (store.hear w.documents n) n.uri = text) :
    w.hear store m n
      = (⟨store.hear w.documents n, n.text?.elim (w.indexes.erase n.uri) fun text =>
          w.indexes.set n.uri (Index.ofText m text)⟩, n.diagnostics m) := by
  cases n with
  | opened uri text =>
    have hs := h text rfl
    simp only [Workspace.hear, Workspace.reindex]
    rw [show store.source (store.hear w.documents (.opened uri text)) uri = text from hs]
    rfl
  | changed uri text =>
    have hs := h text rfl
    simp only [Workspace.hear, Workspace.reindex]
    rw [show store.source (store.hear w.documents (.changed uri text)) uri = text from hs]
    rfl
  | closed uri => rfl

/-- a workspace after a history: what the store has kept of it, and an index for each open
document -/
structure Workspace.Follows (store : Store σ) (m : Machine) (w : Workspace σ)
    (ns : List Notification) : Prop where
  documents : w.documents = store.after ns
  indexes : ∀ uri, w.indexes.lookup uri = (latest uri ns).map (Index.ofText m)

theorem lookup_heard (m : Machine) (indexes : Addressed Index) (n : Notification) (uri : String) :
    (n.text?.elim (indexes.erase n.uri) fun text => indexes.set n.uri (Index.ofText m text)).lookup
      uri = if uri = n.uri then n.text?.map (Index.ofText m) else indexes.lookup uri := by
  cases n.text? with
  | none => exact Addressed.lookup_erase ..
  | some text => exact Addressed.lookup_set ..

/-- two workspaces answer every question about a document in the same way, or fail in the same
way -/
structure AnswersAlike (store : Store σ) (uri : String) (w w' : Workspace σ) : Prop where
  hover : ∀ line character, w.hover store uri line character = w'.hover store uri line character
  completions : w.completions uri = w'.completions uri
  outline : w.outline uri = w'.outline uri

section
variable {store : Store σ} {w : Workspace σ} {uri text : String}
  (h : store.source (store.hear w.documents (.opened uri text)) uri = text) (m : Machine)
include h

/-- a document that has been opened with a text has the index of the text -/
theorem Workspace.index?_opened :
    (w.hear store m (.opened uri text)).1.index? uri = some (Index.ofText m text) := by
  rw [Workspace.hear_eq (n := .opened uri text) (by rintro _ ⟨⟩; exact h)]
  exact (Addressed.lookup_set ..).trans (if_pos rfl)

theorem Workspace.hover_opened (line character : Nat) :
    (w.hear store m (.opened uri text)).1.hover store uri line character
      = (wordAt text line character).map fun word => word.bind (Index.ofText m text).hover? := by
  have hsource : store.source (w.hear store m (.opened uri text)).1.documents uri = text := h
  simp only [Workspace.hover, index?_opened h, hsource]

end

variable {store : Store σ} (hstore : store.Faithful) (m : Machine)
include hstore

/-- in an orderly history, the store gives the text that a notification has brought -/
theorem Store.Faithful.source_hear {ns : List Notification} {n : Notification}
    (ho : Orderly (ns ++ [n])) (text : String) (h : n.text? = some text) :
    store.source (store.hear (store.after ns) n) n.uri = text := by
  rw [← Store.after_concat]
  refine hstore.source _ n.uri text ho ?_
  rw [latest_concat, if_pos rfl, h]

theorem follows_hear {w : Workspace σ} {ns : List Notification} {n : Notification}
    (ho : Orderly (ns ++ [n])) (h : w.Follows store m ns) :
    (w.hear store m n).1.Follows store m (ns ++ [n]) := by
  rw [Workspace.hear_eq (h.documents ▸ hstore.source_hear ho)]
  constructor
  · rw [Store.after_concat, h.documents]
  · intro uri
    rw [lookup_heard, h.indexes, latest_concat]
    split
    · rfl
    · rfl

theorem follows_after {ns : List Notification} (ho : Orderly ns) :
    (Server.after store m ns).workspace.Follows store m ns := by
  induction ns using List.reverseRecOn with
  | nil => exact ⟨rfl, fun _ => rfl⟩
  | append_singleton ns n ih =>
    rw [Server.after_concat]
    exact follows_hear hstore m ho (ih (ho.of_prefix (List.prefix_append ..)))

/-! ## answers -/

/-- answers come from the text and the index of the document, so its latest text decides them; of a
document that is not open no text is asked for -/
theorem Workspace.Follows.answersAlike {w w' : Workspace σ} {ns ns' : List Notification}
    {uri : String} (h : w.Follows store m ns) (h' : w'.Follows store m ns') (ho : Orderly ns)
    (ho' : Orderly ns') (he : latest uri ns = latest uri ns') : AnswersAlike store uri w w' := by
  have hindex : w.index? uri = w'.index? uri := by
    rw [Workspace.index?, Workspace.index?, h.indexes, h'.indexes, he]
  refine ⟨?_, ?_, ?_⟩
  · intro line character
    rw [Workspace.hover, Workspace.hover, ← hindex]
    cases hl : latest uri ns with
    | none =>
      have hnone : w.index? uri = none := by rw [Workspace.index?, h.indexes, hl, Option.map_none]
      rw [hnone]
    | some text =>
      rw [h.documents, h'.documents, hstore.source ns uri text ho hl,
        hstore.source ns' uri text ho' (he ▸ hl)]
  · rw [Workspace.completions, Workspace.completions, hindex]
  · rw [Workspace.outline, Workspace.outline, hindex]

/-! ## diagnostics -/

theorem published_hear {s : Server σ} {ns : List Notification} {n : Notification}
    (ho : Orderly (ns ++ [n])) (hd : s.workspace.documents = store.after ns) (uri : String) :
    (s.hear store m n).lastPublished uri
      = if uri = n.uri then some (n.diagnostics m) else s.lastPublished uri := by
  rw [Server.hear, Workspace.hear_eq (hd ▸ hstore.source_hear ho)]
  show ((n.uri, n.diagnostics m) :: s.published).lookup uri = _
  by_cases h : uri = n.uri
  · simp [h]
  · have hne : (uri == n.uri) = false := by simpa using h
    rw [List.lookup_cons, hne, if_neg h]
    rfl

theorem published_after {ns : List Notification} (ho : Orderly ns) (uri : String) :
    (Server.after store m ns).lastPublished uri
      = (lastAbout uri ns).map (Notification.diagnostics m) := by
  induction ns using List.reverseRecOn with
  | nil => rfl
  | append_singleton ns n ih =>
    have ho' : Orderly ns := ho.of_prefix (List.prefix_append ..)
    have hd := (follows_after hstore m ho').documents
    rw [Server.after_concat, published_hear hstore m ho hd, lastAbout_concat, ih ho']
    split
    · rfl
    · rfl

end

/-! ## what a history comes to -/

/-- the history of a document that was opened once, with its latest text, or never -/
def openedOnce (uri : String) (ns : List Notification) : List Notification :=
  (latest uri ns).toList.map (.opened uri)

theorem latest_openedOnce (uri : String) (ns : List Notification) :
    latest uri (openedOnce uri ns) = latest uri ns := by
  unfold openedOnce
  cases latest uri ns with
  | none => rfl
  | some text => exact (latest_concat uri [] (.opened uri text)).trans (if_pos rfl)

theorem orderly_openedOnce (uri : String) (ns : List Notification) :
    Orderly (openedOnce uri ns) := by
  intro before n hp hn
  have hm : n ∈ openedOnce uri ns := hp.subset (by simp)
  obtain ⟨text, _, rfl⟩ := List.mem_map.1 hm
  cases hn

/-- **Only the latest text of a document matters.** Let the store of the host give the latest text
of every open document.  After any orderly history a server answers about a document like a new one
that has heard of it once, with its latest text, or not at all if it is not open.  What was
published last for it are the diagnostics of that text, or none after it was closed; nothing was if
it was never heard of. -/
theorem answers_from_latest_text {σ : Type} (store : Store σ) (hstore : store.Faithful)
    (m : Machine) (ns : List Notification) (ho : Orderly ns) (uri : String) :
    AnswersAlike store uri (Server.after store m ns).workspace
        (Server.after store m (openedOnce uri ns)).workspace ∧
      (Server.after store m ns).lastPublished uri
        = (lastAbout uri ns).map (Notification.diagnostics m) := by
  have ho' := orderly_openedOnce uri ns
  refine ⟨?_, published_after hstore m ho uri⟩
  exact (follows_after hstore m ho).answersAlike hstore m (follows_after hstore m ho') ho ho'
    (latest_openedOnce uri ns).symm

/-! ## a store -/

/-- keeps the latest text of each document -/
def latestTexts : Store (Addressed String) where
  start := []
  hear texts n := n.text?.elim (texts.erase n.uri) fun text => texts.set n.uri text
  source texts uri := (texts.lookup uri).getD ""

theorem lookup_latestTexts (ns : List Notification) (uri : String) :
    (latestTexts.after ns).lookup uri = latest uri ns := by
  induction ns using List.reverseRecOn with
  | nil => rfl
  | append_singleton ns n ih =>
    rw [Store.after_concat, latest_concat, ← ih]
    show (n.text?.elim ((latestTexts.after ns).erase n.uri) fun text =>
      (latestTexts.after ns).set n.uri text).lookup uri = _
    cases n.text? with
    | none => exact Addressed.lookup_erase ..
    | some text => exact Addressed.lookup_set ..

theorem faithful_latestTexts : latestTexts.Faithful where
  source ns uri text _ h := by
    show ((latestTexts.after ns).lookup uri).getD "" = text
    rw [lookup_latestTexts, h, Option.getD_some]

/-- two documents in turn; the second one cannot be read, and is closed -/
def twoDocuments : List Notification :=
  [.opened "a" "((let x 1))", .opened "b" "(", .changed "a" "((let y 2))", .closed "b"]

theorem orderly_twoDocuments : Orderly twoDocuments := by
  have h₁ := orderly_nil.concat (n := .opened "a" "((let x 1))") nofun
  have h₂ := h₁.concat (n := .opened "b" "(") nofun
  have h₃ := h₂.concat (n := .changed "a" "((let y 2))") fun _ => ⟨"((let x 1))", by decide⟩
  exact h₃.concat (n := .closed "b") fun _ => ⟨"(", by decide⟩

/-- the first document answers as if its second text had been its only one, and the second one as if
it had never been opened -/
theorem answers_after_two_documents :
    let m : Machine := .newProcess 1000
    latestTexts.Faithful ∧ Orderly twoDocuments ∧
      AnswersAlike latestTexts "a" (Server.after latestTexts m twoDocuments).workspace
        (Server.after latestTexts m [.opened "a" "((let y 2))"]).workspace ∧
      AnswersAlike latestTexts "b" (Server.after latestTexts m twoDocuments).workspace
        (Server.after latestTexts m []).workspace ∧
      (Server.after latestTexts m twoDocuments).lastPublished "b" = some [] := by
  intro m
  have h := answers_from_latest_text latestTexts faithful_latestTexts m twoDocuments
    orderly_twoDocuments
  exact ⟨faithful_latestTexts, orderly_twoDocuments, (h "a").1, (h "b").1, (h "b").2⟩

end Lisplet.Editor
