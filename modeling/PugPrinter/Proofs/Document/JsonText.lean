import PugPrinter.Proofs.Document.RoundTrip
import PugPrinter.Proofs.Json.Reading

/-!
Trees written as JSON text and read again. What is written for a well-formed tree holds no doubles and
no key twice, so its text is read as the value that was printed, with the fields of each object in the
order of their keys; and in any order that value is a way to write the tree. The main statement is that
the tree comes back from its text in every layout, as long as its strings have no halves of surrogate
pairs and its lines and columns are not too long to be read.
-/

set_option autoImplicit false

namespace PugPrinter.Document

section Regular

private theorem isRegular_text {field : Loose Text} (proper : field.isProper = true) :
    field.textJson.isRegular = true := by
  obtain ⟨text, rfl⟩ := Loose.isProper_iff.mp proper
  rfl

private theorem isRegular_flag {field : Loose Bool} (proper : field.isProper = true) :
    field.flagJson.isRegular = true := by
  obtain ⟨flag, rfl⟩ := Loose.isProper_iff.mp proper
  rfl

private theorem isRegular_optional {field : Loose Text} (proper : field.isProperOrMissing = true) :
    field.textJson.isRegular = true := by
  rcases Loose.isProperOrMissing_iff.mp proper with ⟨text, rfl⟩ | rfl
  · rfl
  · rfl

private theorem isRegular_array {items : List Json} (each : ∀ item ∈ items, item.isRegular = true) :
    (Json.arr items).isRegular = true := by
  rw [Json.isRegular, Json.every, Json.everyItem_eq_all]
  exact List.all_eq_true.mpr each

private theorem isRegular_object {fields : List (Text × Json)}
    (distinct : (fields.map Prod.fst).Nodup)
    (each : fields.all (fun field => field.2.isRegular) = true) :
    (Json.obj fields).isRegular = true := by
  rw [Json.isRegular, Json.every, Bool.and_eq_true, decide_eq_true_eq, Json.everyField_eq_all]
  exact ⟨distinct, each⟩

private theorem isRegular_attributes {attrs : Attributes} (proper : attrs.isProperList = true) :
    (attributesJson attrs).isRegular = true := by
  obtain ⟨items, rfl⟩ := Loose.isProperList_iff.mp proper
  apply isRegular_array
  intro item member
  rw [List.map_map] at member
  obtain ⟨attr, -, rfl⟩ := List.mem_map.mp member
  have distinct : [("name" : Text), "val", "escaped"].Nodup := by decide
  exact isRegular_object distinct rfl

private theorem isRegular_attributeBlocks {blocks : AttributeBlocks}
    (proper : blocks.isProperList = true) :
    (attributeBlocksJson blocks).isRegular = true := by
  obtain ⟨items, rfl⟩ := Loose.isProperList_iff.mp proper
  apply isRegular_array
  intro item member
  rw [List.map_map] at member
  obtain ⟨expr, -, rfl⟩ := List.mem_map.mp member
  rfl

private theorem keys_distinct {kind : Kind} (concrete : kind ∈ Kind.all) :
    (headingKeys ++ kind.keys).Nodup := by
  have keys : headingKeys ++ kind.keys = (headingSpots ++ kindSpots kind).map Prod.fst := by
    rw [List.map_append, kindSpots_keys]
    rfl
  rw [keys]
  refine List.pairwise_map.mpr ((kindSpots_distinct kind concrete).imp ?_)
  intro own other apart same
  exact apart.1 (same ▸ List.mem_cons_self ..)

private theorem isRegular_written {kind : Kind} (concrete : kind ∈ Kind.all) (loc : Location)
    {fields : List (Text × Json)} (keys : fields.map Prod.fst = kind.keys)
    (each : fields.all (fun field => field.2.isRegular) = true) :
    (Json.obj (written (headingFields kind loc ++ fields))).isRegular = true := by
  have distinct : ((headingFields kind loc ++ fields).map Prod.fst).Nodup := by
    rw [List.map_append, keys]
    exact keys_distinct concrete
  have heading : (headingFields kind loc).all (fun field => field.2.isRegular) = true := by
    obtain ⟨line, column, filename⟩ := loc
    cases column <;> cases filename <;> rfl
  have all : (headingFields kind loc ++ fields).all (fun field => field.2.isRegular) = true := by
    rw [List.all_append, heading, each]
    rfl
  apply isRegular_object
  · exact distinct.sublist (List.filter_sublist.map Prod.fst)
  · rw [List.all_eq_true] at all ⊢
    intro field member
    exact all field (mem_of_mem_written member)

private theorem isRegular_leaf {head : Leaf} (formed : head.wellFormed = true) :
    (leafFields head).all (fun field => field.2.isRegular) = true := by
  cases head with
  | mixinBlock => rfl
  | text val isHtml =>
    simp only [Leaf.wellFormed, Bool.and_eq_true] at formed
    simp [leafFields, isRegular_text formed.1, isRegular_flag formed.2]
  | comment val buffer =>
    simp only [Leaf.wellFormed, Bool.and_eq_true] at formed
    simp [leafFields, isRegular_text formed.1, isRegular_flag formed.2]
  | doctype val => simp [leafFields, isRegular_optional formed]
  | fileReference path => simp [leafFields, isRegular_text formed]
  | bare => rfl

private theorem isRegular_block {kind : BlockKind} {yields : Loose Bool} {nodes : Json}
    (formed : kind.wellFormed = true) (flag : yields.isProper = true) (regular : nodes.isRegular = true) :
    (blockFields kind yields nodes).all (fun field => field.2.isRegular) = true := by
  cases kind with
  | plain => simp [blockFields, isRegular_flag flag, regular]
  | named name mode =>
    simp only [BlockKind.wellFormed, Bool.and_eq_true] at formed
    simp [blockFields, isRegular_flag flag, regular, isRegular_text formed.1,
      isRegular_text (Loose.isProper_of_isMode formed.2)]

private theorem isRegular_stem {head : Stem} {key : Text} {slot : Json}
    (formed : head.wellFormed = true) (regular : slot.isRegular = true) :
    (stemFields head (key, slot)).all (fun field => field.2.isRegular) = true := by
  cases head with
  | mixin m =>
    simp only [Stem.wellFormed, MixinHead.wellFormed, Bool.and_eq_true] at formed
    obtain ⟨⟨⟨⟨name, call⟩, args⟩, attrs⟩, blocks⟩ := formed
    simp [stemFields, regular, isRegular_text name, isRegular_flag call, isRegular_optional args,
      isRegular_attributes attrs, isRegular_attributeBlocks blocks]
  | code code =>
    simp only [Stem.wellFormed, CodeHead.wellFormed, Bool.and_eq_true] at formed
    obtain ⟨⟨val, buffer⟩, escape⟩ := formed
    simp [stemFields, regular, isRegular_text val, isRegular_flag buffer, isRegular_flag escape]
  | blockComment val buffer =>
    simp only [Stem.wellFormed, Bool.and_eq_true] at formed
    simp [stemFields, regular, isRegular_text formed.1, isRegular_flag formed.2]
  | caseOf expr => simp [stemFields, regular, isRegular_text formed]
  | when expr => simp [stemFields, regular, isRegular_text formed]
  | whileLoop test => simp [stemFields, regular, isRegular_text formed]
  | extending => simp [stemFields, regular]
  | filter name attrs =>
    simp only [Stem.wellFormed, Bool.and_eq_true] at formed
    simp [stemFields, regular, isRegular_text formed.1, isRegular_attributes formed.2]

private theorem isRegular_fork {head : Fork} {firstKey secondKey : Text} {first second : Json}
    (formed : head.wellFormed = true) (firstRegular : first.isRegular = true)
    (secondRegular : second.isRegular = true) :
    (forkFields head (firstKey, first) (secondKey, second)).all (fun field => field.2.isRegular) =
      true := by
  cases head with
  | tag tag =>
    simp only [Fork.wellFormed, TagHead.wellFormed, Bool.and_eq_true] at formed
    obtain ⟨⟨⟨⟨name, attrs⟩, blocks⟩, closing⟩, interpolated⟩ := formed
    simp [forkFields, firstRegular, secondRegular, isRegular_text name, isRegular_attributes attrs,
      isRegular_attributeBlocks blocks, isRegular_flag closing, isRegular_flag interpolated]
  | conditional test => simp [forkFields, firstRegular, secondRegular, isRegular_text formed]
  | each val obj key =>
    simp only [Fork.wellFormed, Bool.and_eq_true] at formed
    simp [forkFields, firstRegular, secondRegular, isRegular_text formed.1.1,
      isRegular_text formed.1.2, isRegular_optional formed.2]
  | inclusion filter attrs =>
    simp only [Fork.wellFormed, Bool.and_eq_true] at formed
    simp [forkFields, firstRegular, secondRegular, isRegular_optional formed.1,
      isRegular_attributes formed.2]

end Regular

mutual

private theorem isRegular_dump : ∀ n : Node, n.wellFormed = true → (dump n).isRegular = true
  | .leaf loc head, formed => by
    rw [Node.wellFormed] at formed
    have concrete : head.kind ∈ Kind.all := by
      apply mem_all
      cases head with
      | bare => cases formed
      | _ => exact Kind.noConfusion
    rw [dump]
    apply isRegular_written concrete loc _ (isRegular_leaf formed)
    cases head <;> rfl
  | .block loc kind yields nodes, formed => by
    simp only [Node.wellFormed, Bool.and_eq_true] at formed
    have concrete : kind.kind ∈ Kind.all := by
      apply mem_all
      cases kind <;> exact Kind.noConfusion
    have regular := isRegular_array (isRegular_dumpNodes nodes formed.2)
    rw [dump]
    apply isRegular_written concrete loc _ (isRegular_block formed.1.1 formed.1.2 regular)
    cases kind <;> rfl
  | .oddBlock _ _ _ _, formed => by cases formed
  | .stem loc head child, formed => by
    simp only [Node.wellFormed, Bool.and_eq_true] at formed
    have concrete : head.kind ∈ Kind.all := by
      apply mem_all
      cases head <;> exact Kind.noConfusion
    rw [dump]
    apply isRegular_written concrete loc _
      (isRegular_stem formed.1.1 (isRegular_dumpSlot child formed.2))
    cases head <;> rfl
  | .fork loc head first second, formed => by
    simp only [Node.wellFormed, Bool.and_eq_true] at formed
    obtain ⟨⟨⟨⟨headFormed, -⟩, -⟩, firstFormed⟩, secondFormed⟩ := formed
    have concrete : head.kind ∈ Kind.all := by
      apply mem_all
      cases head <;> exact Kind.noConfusion
    rw [dump]
    apply isRegular_written concrete loc _ (isRegular_fork headFormed
      (isRegular_dumpSlot first firstFormed) (isRegular_dumpSlot second secondFormed))
    cases head <;> rfl
  | .stray _, formed => by cases formed
termination_by structural n => n

private theorem isRegular_dumpNodes : ∀ nodes : List Node, Node.wellFormedNodes nodes = true →
    ∀ item ∈ dumpNodes nodes, item.isRegular = true
  | [], _, _, member => by cases member
  | n :: rest, formed, item, member => by
    simp only [Node.wellFormedNodes, Bool.and_eq_true] at formed
    rw [dumpNodes] at member
    rcases List.mem_cons.mp member with rfl | later
    · exact isRegular_dump n formed.1
    · exact isRegular_dumpNodes rest formed.2 item later
termination_by structural nodes => nodes

private theorem isRegular_dumpSlot : ∀ child : Option Node, Node.wellFormedSlot child = true →
    (dumpSlot child).isRegular = true
  | none, _ => rfl
  | some n, formed => by
    rw [Node.wellFormedSlot] at formed
    exact isRegular_dump n formed
termination_by structural child => child

end

private theorem exists_fields_of_dump {n : Node} (formed : n.wellFormed = true)
    (order : List (Text × Json) → List (Text × Json)) :
    ∃ fields, (dump n).arranged order = .obj fields := by
  cases n with
  | oddBlock | stray => cases formed
  | _ => exact ⟨_, by rw [dump, Json.arranged]⟩

private theorem writeJson_of_short {tree : Node} (numbers : (dump tree).hasShortNumbers = true)
    (indent : Option Int) : writeJson indent tree = .ok (toJsonText indent tree) :=
  if_pos numbers

/-- A well-formed tree is written as JSON text and comes back from it, in every layout, if its strings
have no halves of surrogate pairs and no line or column has more digits than can be written and read. -/
theorem ofJsonText_writeJson {tree : Node} (formed : tree.wellFormed = true)
    (texts : (dump tree).hasTexts Json.isCharacter = true)
    (numbers : (dump tree).hasShortNumbers = true) (indent : Option Int) :
    writeJson indent tree = .ok (toJsonText indent tree) ∧
      ofJsonText (toJsonText indent tree) = .ok tree := by
  refine ⟨writeJson_of_short numbers indent, ?_⟩
  have readable : (dump tree).Readable Json.isCharacter := ⟨isRegular_dump tree formed, numbers, texts⟩
  have read := Json.read_print indent (readable.arranged Json.byKey_perm)
  have spelled := spells_dump Json.byKey_perm tree formed
  have loaded := loadBelow_of_spelled {} tree _ formed spelled
  obtain ⟨fields, isObject⟩ := exists_fields_of_dump formed Json.byKey
  rw [isObject] at loaded
  rw [ofJsonText, toJsonText, Json.print_sorted, read, isObject]
  exact loaded

/-- A tag with an attribute that holds a line feed, above a text with a character past the first
plane. -/
def smileTree : Node :=
  .fork { line := 1, column := some 2, filename := some "\u00e9.pug" }
    (.tag { name := .of "p", attrs := .of [.of { name := "title", val := "'\n'" }] })
    (some (.block { line := 1 } .plain (.of false) [.leaf { line := 1 } (.text (.of "a 😀") (.of false))]))
    none

theorem ofJsonText_writeJson_sample :
    smileTree.wellFormed = true ∧ (dump smileTree).hasTexts Json.isCharacter = true ∧
      (dump smileTree).hasShortNumbers = true ∧
      (∃ text, writeJson none smileTree = .ok text ∧ ofJsonText text = .ok smileTree) ∧
      ∃ text, writeJson (some 2) smileTree = .ok text ∧ ofJsonText text = .ok smileTree := by
  have formed : smileTree.wellFormed = true := by decide
  have texts : (dump smileTree).hasTexts Json.isCharacter = true := by decide +kernel
  have numbers : (dump smileTree).hasShortNumbers = true := by decide +kernel
  exact ⟨formed, texts, numbers, ⟨_, ofJsonText_writeJson formed texts numbers none⟩,
    _, ofJsonText_writeJson formed texts numbers (some 2)⟩

def doctypeAt (line : Int) : Node :=
  .leaf { line } (.doctype .missing)

private theorem byKey_pair {a b : Text × Json} (later : Text.order a.1 b.1 = .gt) :
    Json.byKey [a, b] = [b, a] := by
  simp [Json.byKey, List.mergeSort, List.MergeSort.Internal.splitInTwo, later]

private theorem exists_toJsonText_doctypeAt (line : Int) : ∃ rest,
    toJsonText none (doctypeAt line) = .scalar '\x7b' :: (Json.printString "line" ++ (": " : Text) ++
      (Text.ofInt line ++ .scalar ',' :: rest)) := by
  have written : dump (doctypeAt line) = .obj [("type", .str "Doctype"), ("line", .int line)] := rfl
  have later : Text.order "type" "line" = .gt := by decide
  rw [toJsonText, Json.print_sorted, written, Json.arranged]
  change ∃ rest, Json.print {} 0 (.obj (Json.byKey [(_, .str "Doctype"), (_, .int line)])) = _
  rw [byKey_pair later]
  have printed (a b : Text × Json) : Json.print {} 0 (.obj [a, b]) =
      .scalar '\x7b' :: (Json.printString a.1 ++ (": " : Text) ++ a.2.print {} 1 ++ (", " : Text) ++
        (Json.printString b.1 ++ (": " : Text) ++ b.2.print {} 1)) ++ [.scalar '\x7d'] := rfl
  rw [printed]
  simp only [List.append_assoc, List.cons_append, Json.print]
  exact ⟨_, rfl⟩

private theorem length_ofNat_power (width : Nat) :
    (Text.ofNat (10 ^ width)).length = width + 1 := by
  have upper : (Text.ofNat (10 ^ width)).length ≤ width + 1 := by
    rw [Text.length_ofNat_le_iff _ (Nat.succ_pos width)]
    exact Nat.pow_lt_pow_right (by decide) (Nat.lt_succ_self width)
  have lower : ¬ (Text.ofNat (10 ^ width)).length ≤ width := by
    rcases Nat.eq_zero_or_pos width with rfl | positive
    · decide
    · rw [Text.length_ofNat_le_iff _ positive]
      exact Nat.lt_irrefl _
  omega

private theorem ofJsonText_doctypeAt {line : Int}
    (long : Json.digitLimit < (Text.ofNat line.natAbs).length) :
    ofJsonText (toJsonText none (doctypeAt line)) =
      .error (.integerTooLong (some (Text.ofNat line.natAbs).length)) := by
  obtain ⟨c, more, front, starts⟩ := Json.exists_start_ofInt line
  have opens : Json.Opens (Text.ofInt line) := ⟨c, more, front, starts.1⟩
  obtain ⟨rest, text⟩ := exists_toJsonText_doctypeAt line
  have ends : Json.Ends (.scalar ',' :: rest) :=
    Json.Blank.ends (show Json.Blank [] from nofun) (by decide)
  have characters : ∀ c ∈ Text.ofString "line", Json.isCharacter c = true := by decide
  have refused := Json.read_first_error characters (opens.append (.scalar ',' :: rest))
    (Json.readValue_long long ends)
  rw [ofJsonText, text, refused]
  rfl

theorem not_all_trees_come_back :
    (doctypeAt (10 ^ 4300 : Nat)).wellFormed = true ∧
      (dump (doctypeAt (10 ^ 4300 : Nat))).hasTexts Json.isCharacter = true ∧
      writeJson none (doctypeAt (10 ^ 4300 : Nat)) = .error (.integerTooLong none) ∧
      ofJsonText (toJsonText none (doctypeAt (10 ^ 4300 : Nat))) =
        .error (.integerTooLong (some 4301)) := by
  have digits : (Text.ofNat ((10 ^ 4300 : Nat) : Int).natAbs).length = 4301 := by
    rw [Int.natAbs_natCast]
    exact length_ofNat_power 4300
  have texts (line : Int) : (dump (doctypeAt line)).hasTexts Json.isCharacter = true := rfl
  have long : Json.digitLimit < (Text.ofNat ((10 ^ 4300 : Nat) : Int).natAbs).length := by
    rw [digits]
    decide
  have refused := ofJsonText_doctypeAt long
  rw [digits] at refused
  have notShort : ¬ (dump (doctypeAt (10 ^ 4300 : Nat))).hasShortNumbers = true := by
    have isLong (line : Int) (long : Json.isShort line = false) :
        (dump (doctypeAt line)).hasShortNumbers = false := by
      have written : dump (doctypeAt line) =
          .obj [("type", .str "Doctype"), ("line", .int line)] := rfl
      simp [written, Json.hasShortNumbers, Json.every, Json.everyField, Json.isLongNumber, long]
    rw [isLong _ (decide_eq_false (Nat.not_le.mpr long))]
    exact Bool.false_ne_true
  exact ⟨rfl, texts _, if_neg notShort, refused⟩

end PugPrinter.Document
