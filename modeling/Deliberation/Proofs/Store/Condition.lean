import Deliberation.Proofs.Store.Thread

/-!
Conditions on rows of posts, as they are written for the database and as it takes them. The
condition for lying in the reply subtree of a post is one of these; what it means is what the store
looks for.
-/

namespace Deliberation.Store

inductive PostColumn where
  | id
  | ancestry

def PostColumn.name : PostColumn → String
  | .id => "id"
  | .ancestry => "ancestry"

inductive Value where
  | number (value : Id)
  | text (value : String)
deriving DecidableEq

def Value.asText : Value → String
  | .number value => value.text
  | .text value => value

inductive Term where
  | column (row : String) (named : PostColumn)
  | literal (text : String)
  | joined (first second : Term)

namespace Term

def written : Term → String
  | .column row named => row ++ "." ++ named.name
  | .literal text => "'" ++ text ++ "'"
  | .joined first second => first.written ++ " || " ++ second.written

/-- What the term stands for when each name of a row stands for a post. -/
def value (rows : String → Id × PostRow) : Term → Value
  | .column row .id => .number (rows row).1
  | .column row .ancestry => .text (rows row).2.ancestry
  | .literal text => .text text
  | .joined first second => .text ((first.value rows).asText ++ (second.value rows).asText)

end Term

inductive Condition where
  | equal (first second : Term)
  | unequal (first second : Term)
  | like (term pattern : Term)
  | both (first second : Condition)
  | either (first second : Condition)

namespace Condition

def written : Condition → String
  | .equal first second => first.written ++ " = " ++ second.written
  | .unequal first second => first.written ++ " != " ++ second.written
  | .like term pattern => term.written ++ " LIKE " ++ pattern.written
  | .both first second => "(" ++ first.written ++ " AND " ++ second.written ++ ")"
  | .either first second => "(" ++ first.written ++ " OR " ++ second.written ++ ")"

/-- Whether the condition holds when each name of a row stands for a post. -/
def holds (rows : String → Id × PostRow) : Condition → Bool
  | .equal first second => first.value rows == second.value rows
  | .unequal first second => first.value rows != second.value rows
  | .like term pattern =>
    Like.accepts (pattern.value rows).asText.toList (term.value rows).asText.toList
  | .both first second => first.holds rows && second.holds rows
  | .either first second => first.holds rows || second.holds rows

/-- The condition for lying in the reply subtree of a post. -/
def inSubtree (sub root : String) : Condition :=
  .either (.equal (.column sub .id) (.column root .id))
    (.both (.unequal (.column sub .ancestry) (.literal ""))
      (.like (.column sub .ancestry) (.joined (.joined (.column root .ancestry) (.column root .id))
        (.literal (String.singleton Ancestry.separator ++ "%")))))

/-- Written out, the condition is the text that the ancestry of the root gives. -/
theorem written_inSubtree (sub root : String) :
    (inSubtree sub root).written = Ancestry.subtreeCondition sub root := by
  rw [← String.toList_inj]
  unfold inSubtree Ancestry.subtreeCondition
  simp [written, Term.written, PostColumn.name]

/-- Evaluated on two rows, it says whether the one post lies under the other one. -/
theorem holds_inSubtree (rows : String → Id × PostRow) (sub root : String) :
    (inSubtree sub root).holds rows = liesUnder (rows root) (rows sub) := by
  have hid : (Value.number (rows sub).1 == Value.number (rows root).1) =
      ((rows sub).1 == (rows root).1) := by
    simp
  have hempty : (Value.text (rows sub).2.ancestry != Value.text "") =
      ((rows sub).2.ancestry != "") := by
    simp [bne]
  have hpattern : (rows root).2.ancestry ++ (rows root).1.text ++
      (String.singleton Ancestry.separator ++ "%") =
        Ancestry.child (rows root).2.ancestry (rows root).1 ++ "%" := by
    simp only [Ancestry.child, String.append_assoc]
  simp only [inSubtree, holds, Term.value, Value.asText, liesUnder, hid, hempty, hpattern]

end Condition

end Deliberation.Store
