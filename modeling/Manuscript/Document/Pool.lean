import Manuscript.Document.Basic

/-! Documents whose files are resolved by a pool of workers. Which worker does which files, and
when, is not fixed; the results come back in the order of the files. -/
namespace Manuscript

/-- What a pool may give back for its tasks: a worker does a part of them one after another, and
the results of neighbouring parts are put together in the order of the parts. -/
inductive Pooled {α β : Type} (f : α → β) : List α → List β → Prop
  | alone (tasks : List α) : Pooled f tasks (tasks.map f)
  | joined {left right : List α} {l r : List β} :
      Pooled f left l → Pooled f right r → Pooled f (left ++ right) (l ++ r)

theorem Pooled.eq_map {α β : Type} {f : α → β} {tasks : List α} {results : List β}
    (h : Pooled f tasks results) : results = tasks.map f := by
  induction h with
  | alone tasks => rfl
  | joined _ _ ihl ihr => rw [List.map_append, ihl, ihr]

def halves {α β : Type} (f : α → β) (tasks : List α) : List β :=
  (tasks.take (tasks.length / 2)).map f ++ (tasks.drop (tasks.length / 2)).map f

theorem pooled_halves {α β : Type} (f : α → β) (tasks : List α) :
    Pooled f tasks (halves f tasks) := by
  have h := (Pooled.alone (f := f) (tasks.take (tasks.length / 2))).joined
    (.alone (tasks.drop (tasks.length / 2)))
  rwa [List.take_append_drop] at h

abbrev Content.File := String × List (Block String)

abbrev ResolvedContent.File := String × List (Block (List Span))

def Content.File.resolve (i : Indices) (f : Content.File) : ResolvedContent.File :=
  (f.1, f.2.map (Block.resolve i))

abbrev Pool := (Content.File → ResolvedContent.File) → List Content.File → ResolvedContent

def Content.resolveBy (pool : Pool) (parallel : Bool) (i : Indices) (c : Content) :
    ResolvedContent :=
  if parallel then pool (File.resolve i) c.entries else c.entries.map (File.resolve i)

def Document.buildBy (pool : Pool) (parallel : Bool) (content : Content) (i : Indices) : Document :=
  assemble (content.resolveBy pool parallel i) i

variable {pool : Pool}

theorem Content.resolveBy_eq (hpool : ∀ f files, Pooled f files (pool f files)) (parallel : Bool)
    (i : Indices) (c : Content) : c.resolveBy pool parallel i = c.resolve i := by
  cases parallel with
  | false => rfl
  | true => exact (hpool (File.resolve i) c.entries).eq_map

theorem Document.buildBy_eq (hpool : ∀ f files, Pooled f files (pool f files)) (parallel : Bool)
    (content : Content) (i : Indices) : buildBy pool parallel content i = build content i := by
  rw [buildBy, Content.resolveBy_eq hpool, build]

end Manuscript
