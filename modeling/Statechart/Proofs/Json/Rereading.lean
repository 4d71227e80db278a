import Statechart.Json.Record
import Statechart.Proofs.Json.Scanning

/-! The text of a document is read back as the document, unless it nests deeper than the reader
goes. Reading goes by way of the tree of the text, which any depth of nesting has.
-/

namespace Statechart

namespace Json

namespace Raw

-----------------------------------------------------------------------------------------
-- The tree of a document
-----------------------------------------------------------------------------------------

/-- The tokens of a document are read as its tree, whatever is open around it and whatever comes
after it.
-/
def Grows (value : Json) : Prop :=
  ∀ stack rest, value? stack (value.tokens ++ rest) = after? stack (ofJson value) rest

/-- No items begin with the end of an array. -/
theorem exists_itemTokens_cons (item : Json) (items : List Json)
    : ∃ token rest, itemTokens (item :: items) = token :: rest ∧ token ≠ .closeArray := by
  have first : ∃ token rest, item.tokens = token :: rest ∧ token ≠ .closeArray := by
    cases item with
    | _ => exact ⟨_, _, rfl, nofun⟩
  obtain ⟨token, rest, shape, other⟩ := first
  cases items with
  | nil => exact ⟨token, rest, shape, other⟩
  | cons next items =>
      refine ⟨token, rest ++ .comma :: itemTokens (next :: items), ?_, other⟩
      simp only [itemTokens, shape, List.cons_append]

/-- After `[` comes the first item. -/
theorem value?_openArray (stack : List Frame) (item : Json) (items : List Json)
    (rest : List Token)
    : value? stack (.openArray :: (itemTokens (item :: items) ++ rest))
      = value? (.items [] :: stack) (itemTokens (item :: items) ++ rest) := by
  obtain ⟨token, others, shape, other⟩ := exists_itemTokens_cons item items
  rw [shape, List.cons_append]
  cases token with
  | closeArray => exact absurd rfl other
  | _ => simp only [value?]

/-- Members begin with a key and a colon. -/
theorem exists_memberTokens_cons (key : String) (value : Json)
    (members : List (String × Json))
    : ∃ body, memberTokens ((key, value) :: members) = .string (some key) :: .colon :: body := by
  cases members with
  | nil => exact ⟨_, rfl⟩
  | cons next members => exact ⟨_, rfl⟩

/-- Items between commas are read up to the end of their array, by induction on them and with
those in front that are read already.
-/
theorem value?_items {items : List Json} (all : ∀ item ∈ items, Grows item) (some : items ≠ [])
    (stack : List Frame) (done : List Raw) (rest : List Token)
    : value? (.items done :: stack) (itemTokens items ++ .closeArray :: rest)
      = after? stack (.array (done.reverse ++ ofItems items)) rest := by
  induction items generalizing done with
  | nil => exact absurd rfl some
  | cons item items ih =>
      have grows := all item List.mem_cons_self
      cases items with
      | nil =>
          simp only [itemTokens, ofItems]
          rw [grows, after?, List.reverse_cons]
      | cons next items =>
          have others := ih (fun other member => all other (List.mem_cons_of_mem _ member))
            (List.cons_ne_nil _ _) (ofJson item :: done)
          simp only [itemTokens, List.append_assoc, List.cons_append]
          rw [grows, after?, others]
          simp [ofItems]

/-- Members between commas are read up to the end of their object, where the first key is read
already; by induction on the members.
-/
theorem value?_members {members : List (String × Json)} {key : String} {value : Json}
    {body : List Token} (all : ∀ member ∈ (key, value) :: members, Grows member.2)
    (written : memberTokens ((key, value) :: members) = .string (some key) :: .colon :: body)
    (stack : List Frame) (done : List (Option String × Raw)) (rest : List Token)
    : value? (.member done (some key) :: stack) (body ++ .closeObject :: rest)
      = after? stack (.object (done.reverse ++ ofMembers ((key, value) :: members))) rest := by
  induction members generalizing key value body done with
  | nil =>
      have grows : Grows value := all (key, value) List.mem_cons_self
      obtain rfl : value.tokens = body := by simpa [memberTokens] using written
      rw [grows, after?, List.reverse_cons]
      simp [ofMembers]
  | cons next members ih =>
      obtain ⟨name, later⟩ := next
      have grows : Grows value := all (key, value) List.mem_cons_self
      have others : ∀ member ∈ (name, later) :: members, Grows member.2 :=
        fun other member => all other (List.mem_cons_of_mem _ member)
      obtain ⟨following, shape⟩ := exists_memberTokens_cons name later members
      obtain rfl : value.tokens ++ .comma :: .string (some name) :: .colon :: following = body := by
        simpa [memberTokens, shape] using written
      rw [List.append_assoc, grows]
      simp only [List.cons_append]
      rw [after?, ih others shape]
      simp [ofMembers]

/-- The tokens of every document grow into its tree, by induction on an exact one. -/
theorem grows_of_exact {value : Json} (exact : value.Exact) : Grows value := by
  induction exact with
  | null => exact fun stack rest => rfl
  | bool value => exact fun stack rest => rfl
  | number fits => exact fun stack rest => rfl
  | string text => exact fun stack rest => rfl
  | @array items _ ih =>
      intro stack rest
      cases items with
      | nil => rfl
      | cons item items =>
          have listed := value?_items ih (List.cons_ne_nil _ _) stack [] rest
          simp only [tokens, List.cons_append, List.append_assoc, List.nil_append, ofJson]
          rw [value?_openArray]
          exact listed
  | @object members _ _ ih =>
      intro stack rest
      cases members with
      | nil => rfl
      | cons member members =>
          obtain ⟨key, value⟩ := member
          obtain ⟨body, shape⟩ := exists_memberTokens_cons key value members
          have listed := value?_members ih shape stack [] rest
          simp only [tokens, shape, List.cons_append, List.append_assoc, List.nil_append, ofJson]
          rw [value?]
          exact listed

/-- The text of an exact document has the tree of the document. -/
theorem ofText?_text {value : Json} (exact : value.Exact)
    : ofText? value.text = some (ofJson value) := by
  have grown := grows_of_exact exact [] []
  rw [List.append_nil] at grown
  simp only [ofText?, text, String.toList_ofList, Token.scan?_chars exact, Option.bind_some, grown,
    after?]

-----------------------------------------------------------------------------------------
-- The document of a tree
-----------------------------------------------------------------------------------------

/-- A document is read from its tree as it is, if it nests no deeper than the reader goes, and not
at all if it does.
-/
def Returns (value : Json) : Prop :=
  ∀ depth, json? depth (ofJson value) = if value.nesting ≤ depth then some value else none

theorem itemsJson?_ofItems {items : List Json} (all : ∀ item ∈ items, Returns item) (depth : Nat)
    : itemsJson? depth (ofItems items)
      = if itemsNesting items ≤ depth then some items else none := by
  induction items with
  | nil => simp [ofItems, itemsJson?, itemsNesting]
  | cons item items ih =>
      have returns := all item List.mem_cons_self depth
      have others := ih (fun other member => all other (List.mem_cons_of_mem _ member))
      simp only [ofItems, itemsJson?, returns, others, itemsNesting_cons_le_iff]
      by_cases first : item.nesting ≤ depth
      · by_cases rest : itemsNesting items ≤ depth <;> simp [first, rest]
      · simp [first]

theorem membersJson?_ofMembers {members : List (String × Json)}
    (all : ∀ member ∈ members, Returns member.2) (depth : Nat)
    : membersJson? depth (ofMembers members)
      = if membersNesting members ≤ depth then some members else none := by
  induction members with
  | nil => simp [ofMembers, membersJson?, membersNesting]
  | cons member members ih =>
      obtain ⟨key, value⟩ := member
      have returns : Returns value := all (key, value) List.mem_cons_self
      have others := ih (fun other member => all other (List.mem_cons_of_mem _ member))
      simp only [ofMembers, membersJson?, returns depth, others, membersNesting_cons_le_iff]
      by_cases first : value.nesting ≤ depth
      · by_cases rest : membersNesting members ≤ depth <;> simp [first, rest]
      · simp [first]

/-- Every exact document is returned, by induction on it: what its keys give is collected as it
is, since they are all different.
-/
theorem returns_of_exact {value : Json} (exact : value.Exact) : Returns value := by
  induction exact with
  | null => exact fun depth => rfl
  | bool value => exact fun depth => rfl
  | number fits => exact fun depth => rfl
  | string text => exact fun depth => rfl
  | @array items _ ih =>
      intro depth
      cases depth with
      | zero => simp [ofJson, json?, nesting]
      | succ depth =>
          simp only [ofJson, json?, itemsJson?_ofItems ih, nesting, Nat.add_le_add_iff_right]
          by_cases fits : itemsNesting items ≤ depth <;> simp [fits]
  | @object members distinct _ ih =>
      intro depth
      cases depth with
      | zero => simp [ofJson, json?, nesting]
      | succ depth =>
          simp only [ofJson, json?, membersJson?_ofMembers ih, nesting, Nat.add_le_add_iff_right]
          by_cases fits : membersNesting members ≤ depth <;> simp [fits, collect_distinct distinct]

-----------------------------------------------------------------------------------------
-- The fields of a record
-----------------------------------------------------------------------------------------

/-- Among members that are all different there is one with the key of each. -/
theorem field?_of_mem {α : Type} {members : List (String × α)} {member : String × α}
    (distinct : (members.map (·.1)).Nodup) (found : member ∈ members)
    : Record.field? members member.1 = some (some member.2) := by
  have single : members.filter (fun other => other.1 = member.1) = [member] := by
    induction members with
    | nil => cases found
    | cons first rest ih =>
        rw [List.map_cons, List.nodup_cons] at distinct
        obtain ⟨fresh, distinct⟩ := distinct
        rcases List.mem_cons.mp found with rfl | later
        · rw [List.filter_cons_of_pos (by simp), List.filter_eq_nil_iff.mpr]
          intro other member same
          exact fresh (List.mem_map.mpr ⟨other, member, of_decide_eq_true same⟩)
        · have other : first.1 ≠ member.1 :=
            fun same => fresh (List.mem_map.mpr ⟨member, later, same.symm⟩)
          rw [List.filter_cons_of_neg (by simpa using other)]
          exact ih distinct later
  simp only [Record.field?, single]

/-- The fields of a record are read from the object that writes it in order, if their names are
all different.
-/
theorem fields?_ofJson {members : List (String × Json)} {names : List String} {least : Nat}
    (named : names = members.map (·.1)) (distinct : names.Nodup)
    : Raw.fields? names least (ofJson (.object members))
      = some (members.map (fun member => some (ofJson member.2))) := by
  have keyed
      : (ofMembers members).mapM (fun member => member.1.map (fun key => (key, member.2)))
        = some (members.map (fun member => (member.1, ofJson member.2))) := by
    clear named
    induction members with
    | nil => rfl
    | cons member members ih =>
        rw [ofMembers, List.mapM_cons, ih]
        rfl
  have same : (members.map (fun member => (member.1, ofJson member.2))).map (·.1) = names := by
    rw [named, List.map_map]
    rfl
  have read : ∀ rest : List (String × Json),
      rest ⊆ members
      → (rest.map (·.1)).mapM
            (Record.field? (members.map (fun member => (member.1, ofJson member.2))))
          = some (rest.map (fun member => some (ofJson member.2))) := by
    intro rest included
    induction rest with
    | nil => rfl
    | cons member rest ih =>
        have listed : (member.1, ofJson member.2)
            ∈ members.map (fun member => (member.1, ofJson member.2)) :=
          List.mem_map.mpr ⟨member, included List.mem_cons_self, rfl⟩
        have first := field?_of_mem (same ▸ distinct) listed
        have others := ih (fun other found => included (List.mem_cons_of_mem _ found))
        rw [List.map_cons, List.mapM_cons, first, others]
        rfl
  simp only [ofJson, Raw.fields?, keyed, Record.ofMembers?, bind, Option.bind]
  rw [named]
  exact read members (fun _ found => found)

end Raw

/-- The text of an exact document is read back as the document, unless it nests too deep. -/
theorem ofText?_text {value : Json} (exact : value.Exact)
    : ofText? value.text = if value.nesting ≤ depthLimit then some value else none := by
  rw [ofText?, Raw.ofText?_text exact, Option.bind_some, Raw.returns_of_exact exact]

end Json

end Statechart
