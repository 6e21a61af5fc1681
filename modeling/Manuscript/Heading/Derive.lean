import Manuscript.Document.Basic
import Manuscript.Heading.Extract

/-! A table of contents made from the content itself. Every run of blocks of one section gives a
heading under the section's own id, followed by the headings in its text; those never take the id of
any section. -/
namespace Manuscript.Heading

def reserveAll (content : Content) : Slug.Allocator :=
  content.entries.foldl (fun a e => e.2.foldl (fun a b => a.reserve b.sectionId) a) .empty

def ofSection (file : String) (b : Block String) : Heading :=
  ⟨(Level.parse? b.level).getD 1, b.sectionTitle, b.sectionId, file⟩

/-- The headings of the blocks of a file; `current` is the section of the block before. -/
def ofBlocks (file : String) (current : Option String) (a : Slug.Allocator) :
    List (Block String) → List Heading × Slug.Allocator
  | [] => ([], a)
  | b :: blocks =>
    let (inText, a) := extractWith file b.body a
    let (more, a) := ofBlocks file (some b.sectionId) a blocks
    let own := if current = some b.sectionId then [] else [ofSection file b]
    (own ++ inText ++ more, a)

def ofFiles (a : Slug.Allocator) : List (String × List (Block String)) → List Heading
  | [] => []
  | (file, blocks) :: files =>
    let (headings, a) := ofBlocks file none a blocks
    headings ++ ofFiles a files

def derive (content : Content) : List Heading := ofFiles (reserveAll content) content.entries

end Manuscript.Heading
