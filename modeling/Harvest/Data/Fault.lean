/-!
# Faults

A fault is the misuse of a dynamic value: data of unknown origin was taken for something that it is
not. A fault says only of which kind the misuse was: how a failed operation of the runtime words its
complaint is the business of the runtime, so that faults have no texts that could be compared.
-/

namespace Harvest

/-- Why a text is no label of a host name. -/
inductive LabelFault where
  /-- It is empty or too long, or its beginning, its end or its marks are not in order. -/
  | malformed
  /-- It has a character that belongs to no label. -/
  | character
  /-- It has a character that needs other neighbours. -/
  | context
  /-- It mixes directions of writing. -/
  | direction
  deriving DecidableEq, Repr, Inhabited

/-- Why an operation on a dynamic value has no result. -/
inductive Fault where
  /-- The operation is not defined on values of this kind. -/
  | kind
  /-- The value is of the right kind, but its content cannot be used. -/
  | content
  /-- The result would be beyond the range of numbers. -/
  | range
  /-- A container has no entry under a key. -/
  | entry
  /-- A text ends before a position that is read. -/
  | position
  /-- A value lacks a part that its users rely on. -/
  | part
  /-- A file is missing where one has to be read or replaced. -/
  | missingFile
  /-- A directory stands where a file is expected. -/
  | directory
  /-- A file stands where a directory is expected. -/
  | notDirectory
  /-- A file stands where a directory is to be made. -/
  | occupied
  /-- A path, or a name on it, is longer than a disk allows. -/
  | overlong
  /-- A text is no address. -/
  | address
  /-- A text has characters beyond ASCII where there must be none. -/
  | beyondAscii
  /-- A text has half of a pair, which has no bytes. -/
  | unencodable
  /-- A host name is written in a form that stands for none. -/
  | label (f : LabelFault)
  deriving DecidableEq, Repr, Inhabited

end Harvest
