import Harvest.Paging.Walk
import Harvest.Proofs.Data.Json
import Harvest.Proofs.GraphQL.Names
import Harvest.Storage.NodeMemory

/-!
# What a node id tells

A node id joins the type, the id and the language of an entity by colons. Names of types have no colon, so
the type can be told from the id. Where the id of the entity ends and its language begins cannot: a colon
that belongs to the one is taken for the end of the other. `EntityRecord.nodeId_eq_iff` says which records
share a node id, and `NodeMemory.emit_replaces_iff` that those are the ones that replace each other.

A text that was joined by colons can be cut at any of them. With two cuts in different places, the piece
between them belongs to the first text on one side and to the second on the other; `colon_eq_iff` says that
there is no other way to get the same text twice. The type is cut off first, as a name has no colon, and
then the id from the language.
-/

namespace Harvest

/-! ## Texts joined by a colon

For lists with a separator, then for texts. -/

theorem List.append_cons_eq_iff {α : Type} (c : α) (as bs cs ds : List α) :
    as ++ c :: bs = cs ++ c :: ds ↔
      (as = cs ∧ bs = ds) ∨ (∃ xs, as = cs ++ c :: xs ∧ ds = xs ++ c :: bs) ∨
        ∃ xs, cs = as ++ c :: xs ∧ bs = xs ++ c :: ds := by
  constructor
  · intro h
    rcases List.append_eq_append_iff.mp h with ⟨xs, hcs, hbs⟩ | ⟨xs, has, hds⟩
    · cases xs with
      | nil => simp_all
      | cons x xs =>
          obtain ⟨rfl, rfl⟩ := List.cons.inj hbs
          exact .inr (.inr ⟨xs, hcs, rfl⟩)
    · cases xs with
      | nil => simp_all
      | cons x xs =>
          obtain ⟨rfl, rfl⟩ := List.cons.inj hds
          exact .inr (.inl ⟨xs, has, rfl⟩)
  · rintro (⟨rfl, rfl⟩ | ⟨xs, rfl, rfl⟩ | ⟨xs, rfl, rfl⟩) <;> simp

/-- Two pairs of texts look the same with a colon in between if they are the same, or if the first text of
one of them goes on, after a colon, with what the second text of the other begins with. -/
theorem colon_eq_iff (a b c d : String) :
    a ++ ":" ++ b = c ++ ":" ++ d ↔
      (a = c ∧ b = d) ∨ (∃ x, a = c ++ ":" ++ x ∧ d = x ++ ":" ++ b) ∨
        ∃ x, c = a ++ ":" ++ x ∧ b = x ++ ":" ++ d := by
  have hsplit (s t : String) : (s ++ ":" ++ t).toList = s.toList ++ ':' :: t.toList := by simp
  have hexists (s t u v : String) :
      (∃ xs, s.toList = t.toList ++ ':' :: xs ∧ u.toList = xs ++ ':' :: v.toList) ↔
        ∃ x, s = t ++ ":" ++ x ∧ u = x ++ ":" ++ v := by
    constructor
    · rintro ⟨xs, hs, hu⟩
      refine ⟨String.ofList xs, ?_, ?_⟩ <;> simp [← String.toList_inj, hs, hu]
    · rintro ⟨x, rfl, rfl⟩
      exact ⟨x.toList, by simp⟩
  rw [← String.toList_inj, hsplit, hsplit, List.append_cons_eq_iff, String.toList_inj, String.toList_inj,
    hexists, hexists]

/-- A text without a colon before the first colon is the same in both. -/
theorem colon_eq_iff_of_notMem {a c : String} (ha : ':' ∉ a.toList) (hc : ':' ∉ c.toList)
    (b d : String) : a ++ ":" ++ b = c ++ ":" ++ d ↔ a = c ∧ b = d := by
  rw [colon_eq_iff]
  constructor
  · rintro (h | ⟨x, rfl, -⟩ | ⟨x, rfl, -⟩)
    · exact h
    · exact absurd (by simp) ha
    · exact absurd (by simp) hc
  · exact .inl

namespace EntityRecord

/-! ## Records that share a node id

Records are looked at by the texts of their parts. Values that are displayed alike count as one here: the
number `1` and the text `1` make the same id. -/

/-- The id of an entity as it stands in the node id. -/
def idText (r : EntityRecord) : String := r.entityId.display

/-- The language of an entity as it stands in the node id. -/
def languageText (r : EntityRecord) : String := r.entityLanguage.display

/-- Whether a record comes from an item of a type: the type is what the entity gives for itself. -/
structure IsOf (r : EntityRecord) (typeName : String) : Prop where
  kept : r.typeName = typeName
  given : r.typename = .str typeName

theorem nodeId_eq {typeName : String} {r : EntityRecord} (h : r.IsOf typeName) :
    r.nodeId = typeName ++ ":" ++ (r.idText ++ ":" ++ r.languageText) := by
  rw [nodeId, identity, h.given]
  simp [String.intercalate_cons_cons, idText, languageText, String.append_assoc]

theorem isOf_of_record? {w : Walk} {v : Value} {r : EntityRecord} (h : w.record? v = some r) :
    r.IsOf w.document.typeName := by
  unfold Walk.record? at h
  split at h
  next ms =>
    split at h
    next t htype =>
      split at h
      next ht =>
        cases h
        refine ⟨rfl, ?_⟩
        show (Members.field? ms "__typename").getD .null = _
        rw [htype, ht]
        rfl
      next => cases h
    next => cases h
  next => cases h

theorem notMem_of_isName {s : String} (h : GraphQL.IsName s) : ':' ∉ s.toList := by
  intro hmem
  have hcolon : GraphQL.isNameContinue ':' = true := h.isNameContinue hmem
  revert hcolon
  decide

/-- Whether the id of one entity is that of another with a piece of the other's language at its end. -/
def Shifted (r s : EntityRecord) : Prop :=
  ∃ x, r.idText = s.idText ++ ":" ++ x ∧ s.languageText = x ++ ":" ++ r.languageText

/-- Whether two records look the same in a node id. -/
def Alike (r s : EntityRecord) : Prop :=
  r.typeName = s.typeName ∧
    ((r.idText = s.idText ∧ r.languageText = s.languageText) ∨ r.Shifted s ∨ s.Shifted r)

variable {m n : String} {r s : EntityRecord}

/-- **Records share a node id** exactly if they look alike in it. -/
theorem nodeId_eq_iff (hm : GraphQL.IsName m) (hn : GraphQL.IsName n) (hr : r.IsOf m) (hs : s.IsOf n) :
    r.nodeId = s.nodeId ↔ r.Alike s := by
  rw [nodeId_eq hr, nodeId_eq hs,
    colon_eq_iff_of_notMem (notMem_of_isName hm) (notMem_of_isName hn), colon_eq_iff, Alike,
    hr.kept, hs.kept]
  rfl

/-- The type can always be told from the node id. -/
theorem type_eq_of_nodeId_eq (hm : GraphQL.IsName m) (hn : GraphQL.IsName n) (hr : r.IsOf m)
    (hs : s.IsOf n) (h : r.nodeId = s.nodeId) : m = n := by
  have halike : r.Alike s := (nodeId_eq_iff hm hn hr hs).mp h
  rw [← hr.kept, ← hs.kept, halike.1]

end EntityRecord

/-! ## Records that replace each other

The memory keeps one record for each id, the last that came. -/

namespace NodeMemory

open EntityRecord

/-- **A record takes the place of another one** exactly if the two look alike in a node id, whatever
identities they have. -/
theorem emit_replaces_iff {w w' : Walk} {v v' : Value} {r s : EntityRecord}
    (hw : GraphQL.IsName w.document.typeName) (hw' : GraphQL.IsName w'.document.typeName)
    (hr : w.record? v = some r) (hs : w'.record? v' = some s) (m : NodeMemory) (d d' : NodeDefinition) :
    (r.nodeId = s.nodeId ↔ r.Alike s) ∧
      (r.Alike s → ((m.emit d r).emit d' s).nodes.get? r.nodeId = some (d', s)) ∧
      (¬r.Alike s → ((m.emit d r).emit d' s).nodes.get? r.nodeId = some (d, r) ∧
        ((m.emit d r).emit d' s).nodes.get? s.nodeId = some (d', s)) := by
  have hiff := nodeId_eq_iff hw hw' (isOf_of_record? hr) (isOf_of_record? hs)
  refine ⟨hiff, fun halike => ?_, fun halike => ?_⟩
  · rw [get?_emit, if_pos (hiff.mpr halike)]
  · have hne : r.nodeId ≠ s.nodeId := fun h => halike (hiff.mp h)
    rw [get?_emit, if_neg hne, get?_emit, if_pos rfl, get?_emit, if_pos rfl]
    exact ⟨rfl, rfl⟩

end NodeMemory

namespace Sample

/-- A walk through pages of one type. -/
def pageWalk : Walk :=
  .start { (default : CompiledDocument) with typeName := "Page" } "EN" { pageSize := .int 100 }

/-- An entity with an id and a language. -/
def pageItem (id language : String) : Members :=
  [(.str "__typename", .str "Page"), (.str "entityId", .str id),
    (.str "entityLanguage", .object [(.str "id", .str language)])]

def pageRecord (id language : String) : EntityRecord :=
  { typeName := "Page", language := "EN", data := pageItem id language }

def pages : NodeDefinition := { (default : NodeDefinition) with nodeType := "DrupalPage" }

theorem record?_pageItem (id language : String) :
    pageWalk.record? (.object (pageItem id language)) = some (pageRecord id language) := rfl

/-- The colon in an id is taken for the one before a language, and the record of the first page is
replaced by that of another one. -/
theorem page_lost :
    (pageRecord "1:en" "x").identity = [.str "Page", .str "1:en", .str "x"] ∧
      (pageRecord "1" "en:x").identity = [.str "Page", .str "1", .str "en:x"] ∧
      ((NodeMemory.empty.emit pages (pageRecord "1:en" "x")).emit pages (pageRecord "1" "en:x")).nodes.get?
        (pageRecord "1:en" "x").nodeId = some (pages, pageRecord "1" "en:x") := by
  have hname : GraphQL.IsName pageWalk.document.typeName := by decide +kernel
  have hshifted : (pageRecord "1:en" "x").Shifted (pageRecord "1" "en:x") := ⟨"en", rfl, rfl⟩
  obtain ⟨-, hreplaced, -⟩ := NodeMemory.emit_replaces_iff hname hname (record?_pageItem "1:en" "x")
    (record?_pageItem "1" "en:x") NodeMemory.empty pages pages
  refine ⟨rfl, rfl, ?_⟩
  apply hreplaced
  exact ⟨rfl, .inr (.inl hshifted)⟩

end Sample

end Harvest
