import KafkaCharm.AclListing

namespace KafkaCharm

open PyText

/-- The text of a field: a type, a name, a principal or an operation. -/
structure AclWord where
  text : Str
  ne_nil : text ≠ []
  no_comma : ',' ∉ text
  breakFree : BreakFree text
  keyFree : KeyFree text

/-- White space within a line. -/
structure Blank where
  text : Str
  spaces : ∀ c ∈ text, isSpace c = true
  breakFree : BreakFree text

/-- What is printed on a line, with the white space around it and the blank lines above. -/
structure Printed (α : Type) where
  gap : List Blank
  margin : Blank
  item : α
  trail : Blank

structure AclResource where
  resourceType : AclWord
  name : AclWord
  patternType : PatternType

structure AclEntry where
  user : AclWord
  operation : AclWord

/-- A resource and the entries under it. -/
structure AclBlock where
  resource : Printed AclResource
  entries : List (Printed AclEntry)

/-- The blocks of a listing and the blank lines below them. -/
structure AclOutput where
  blocks : List AclBlock
  tail : List Blank

def AclResource.fields (r : AclResource) (trail : Str) : Str :=
  resourceFields r.resourceType.text r.name.text r.patternType.text trail

def AclEntry.fields (e : AclEntry) (trail : Str) : Str :=
  entryFields e.user.text e.operation.text trail

/-- The lines of an item: the blank ones and its own. -/
def Printed.lines {α : Type} (fields : α → Str → Str) (p : Printed α) : List Str :=
  p.gap.map Blank.text ++ [p.margin.text ++ fields p.item p.trail.text]

def AclBlock.lines (b : AclBlock) : List Str :=
  b.resource.lines AclResource.fields ++ b.entries.flatMap (Printed.lines AclEntry.fields)

def AclOutput.lines (o : AclOutput) : List Str :=
  o.blocks.flatMap AclBlock.lines ++ o.tail.map Blank.text

/-- The text of the listing, with or without a line break at its end. -/
def AclOutput.text (o : AclOutput) : Str := ['\n'].intercalate o.lines

/-- The combination that an entry of a block stands for. -/
def AclBlock.acl (b : AclBlock) (e : AclEntry) : Acl where
  resourceName := b.resource.item.name.text
  resourceType := b.resource.item.resourceType.text
  operation := e.operation.text
  username := e.user.text

def AclBlock.acls (b : AclBlock) : List Acl := b.entries.map fun e => b.acl e.item

/-! ## Line by line -/

theorem AclWord.field_eq (w : AclWord) : field w.text = some w.text :=
  field_eq_self w.ne_nil w.no_comma

theorem Blank.no_comma (b : Blank) : ',' ∉ b.text := no_comma_of_spaces b.spaces

theorem parseLines_gap (c : Carry) (gap : List Blank) (rest : List Str) :
    parseLines c (gap.map Blank.text ++ rest) = parseLines c rest := by
  have hgap : ∀ l ∈ gap.map Blank.text, ∀ d ∈ l, isSpace d = true := by
    intro l hl
    obtain ⟨b, -, rfl⟩ := List.mem_map.mp hl
    exact b.spaces
  obtain ⟨hparse, hread⟩ := parseLines_blank c hgap
  rw [parseLines_append, hparse, hread, List.nil_append]

/-- A resource line adds nothing and sets the type and the name. -/
theorem parseLines_resource (c : Carry) (r : Printed AclResource) (rest : List Str) :
    parseLines c (r.lines AclResource.fields ++ rest) =
      parseLines ⟨some r.item.resourceType.text, some r.item.name.text, c.user⟩ rest := by
  have hpt := no_comma_patternType r.item.patternType
  have hread := read_resourceFields c r.margin.spaces r.item.resourceType.ne_nil
    r.item.resourceType.no_comma r.item.resourceType.keyFree
    (fun _ => r.item.name.keyFree _ (by decide)) (r.item.name.keyFree _ (by decide)) hpt
    r.trail.no_comma
  have hmem : Key.operation ∈ [Key.user, Key.operation] := by simp
  have hop := capture_resourceFields_skip hmem r.margin.spaces
    r.item.resourceType.keyFree (r.item.name.keyFree _ (by decide)) hpt r.trail.no_comma
  rw [Printed.lines, List.append_assoc, parseLines_gap, List.singleton_append, parseLines,
    AclResource.fields, hread, hop, acl_none, AclWord.field_eq]
  rfl

/-- An entry line adds an `Acl` of the type and the name that are set, and sets the user. -/
theorem parseLines_entry_exact (resourceType name : Str) (user : Option Str)
    (e : Printed AclEntry) (rest : List Str) :
    parseLines ⟨some resourceType, some name, user⟩ (e.lines AclEntry.fields ++ rest) =
      ⟨name, resourceType, e.item.operation.text, e.item.user.text⟩ ::
        parseLines ⟨some resourceType, some name, some e.item.user.text⟩ rest := by
  have hread := read_entryFields e.margin.spaces e.trail.no_comma e.item.user.keyFree
    e.item.operation.keyFree ⟨some resourceType, some name, user⟩
  have hop := capture_entryFields_operation e.margin.spaces e.trail.no_comma e.item.user.keyFree
    e.item.operation.keyFree
  rw [Printed.lines, List.append_assoc, parseLines_gap, List.singleton_append, parseLines,
    AclEntry.fields, hread, hop, AclWord.field_eq, AclWord.field_eq]
  rfl

/-! ## Block by block -/

theorem parseLines_entries_exact (b : AclBlock) (entries : List (Printed AclEntry))
    (user : Option Str) :
    ∃ user', ∀ rest,
      parseLines ⟨some b.resource.item.resourceType.text, some b.resource.item.name.text, user⟩
          (entries.flatMap (Printed.lines AclEntry.fields) ++ rest) =
        (entries.map fun e => b.acl e.item) ++
          parseLines ⟨some b.resource.item.resourceType.text, some b.resource.item.name.text,
            user'⟩ rest := by
  induction entries generalizing user with
  | nil => exact ⟨user, fun rest => rfl⟩
  | cons e entries ih =>
    obtain ⟨user', hrest⟩ := ih (some e.item.user.text)
    refine ⟨user', fun rest => ?_⟩
    rw [List.flatMap_cons, List.append_assoc, parseLines_entry_exact, hrest]
    rfl

/-- A block adds its own combinations, whatever the lines before it left. -/
theorem parseLines_block_exact (b : AclBlock) (c : Carry) :
    ∃ c', ∀ rest, parseLines c (b.lines ++ rest) = b.acls ++ parseLines c' rest := by
  obtain ⟨user', hentries⟩ := parseLines_entries_exact b b.entries c.user
  refine ⟨⟨some b.resource.item.resourceType.text, some b.resource.item.name.text, user'⟩,
    fun rest => ?_⟩
  rw [AclBlock.lines, List.append_assoc, parseLines_resource, hentries]
  rfl

theorem parseLines_blocks_exact (blocks : List AclBlock) (c : Carry) :
    ∃ c', ∀ rest, parseLines c (blocks.flatMap AclBlock.lines ++ rest) =
      blocks.flatMap AclBlock.acls ++ parseLines c' rest := by
  induction blocks generalizing c with
  | nil => exact ⟨c, fun rest => rfl⟩
  | cons b blocks ih =>
    obtain ⟨c₁, hblock⟩ := parseLines_block_exact b c
    obtain ⟨c₂, hrest⟩ := ih c₁
    refine ⟨c₂, fun rest => ?_⟩
    rw [List.flatMap_cons, List.append_assoc, hblock, hrest, List.flatMap_cons, List.append_assoc]

/-! ## The text -/

theorem AclResource.fields_breakFree (r : AclResource) {trail : Str} (h : BreakFree trail) :
    BreakFree (r.fields trail) := by
  unfold AclResource.fields resourceFields
  refine breakFree_append.mpr ⟨by decide, breakFree_append.mpr ⟨by decide, ?_⟩⟩
  refine breakFree_append.mpr ⟨r.resourceType.breakFree, breakFree_comma ?_⟩
  refine breakFree_append.mpr ⟨by decide, breakFree_append.mpr ⟨by decide, ?_⟩⟩
  refine breakFree_append.mpr ⟨r.name.breakFree, breakFree_comma ?_⟩
  refine breakFree_append.mpr ⟨by decide, breakFree_append.mpr ⟨?_, ?_⟩⟩
  · cases r.patternType <;> decide
  · exact breakFree_append.mpr ⟨by decide, h⟩

theorem AclEntry.fields_breakFree (e : AclEntry) {trail : Str} (h : BreakFree trail) :
    BreakFree (e.fields trail) := by
  unfold AclEntry.fields entryFields
  refine breakFree_append.mpr ⟨by decide, breakFree_append.mpr ⟨by decide, ?_⟩⟩
  refine breakFree_append.mpr ⟨e.user.breakFree, breakFree_comma ?_⟩
  refine breakFree_append.mpr ⟨by decide, breakFree_comma ?_⟩
  refine breakFree_append.mpr ⟨by decide, breakFree_append.mpr ⟨by decide, ?_⟩⟩
  refine breakFree_append.mpr ⟨e.operation.breakFree, breakFree_comma ?_⟩
  exact breakFree_append.mpr ⟨by decide, h⟩

theorem Printed.lines_breakFree {α : Type} {fields : α → Str → Str}
    (h : ∀ item trail, BreakFree trail → BreakFree (fields item trail)) (p : Printed α) :
    ∀ l ∈ p.lines fields, BreakFree l := by
  intro l hl
  rcases List.mem_append.mp hl with hgap | hline
  · obtain ⟨b, -, rfl⟩ := List.mem_map.mp hgap
    exact b.breakFree
  · obtain rfl := List.mem_singleton.mp hline
    exact breakFree_append.mpr ⟨p.margin.breakFree, h p.item _ p.trail.breakFree⟩

theorem AclOutput.lines_breakFree (o : AclOutput) : ∀ l ∈ o.lines, BreakFree l := by
  intro l hl
  rcases List.mem_append.mp hl with hblocks | htail
  · obtain ⟨b, -, hb⟩ := List.mem_flatMap.mp hblocks
    rcases List.mem_append.mp hb with hresource | hentries
    · exact b.resource.lines_breakFree (fun r _ => r.fields_breakFree) l hresource
    · obtain ⟨e, -, he⟩ := List.mem_flatMap.mp hentries
      exact e.lines_breakFree (fun e _ => e.fields_breakFree) l he
  · obtain ⟨b, -, rfl⟩ := List.mem_map.mp htail
    exact b.breakFree

/-- Lines joined by line breaks, of which the last need not end. -/
theorem intercalate_concat (ls : List Str) (last : Str) :
    ['\n'].intercalate (ls ++ [last]) = unlines ls ++ last := by
  induction ls with
  | nil => simp [unlines]
  | cons l ls ih =>
    obtain ⟨x, xs, hcons⟩ := List.exists_cons_of_ne_nil (List.concat_ne_nil last ls)
    rw [List.cons_append, hcons, List.intercalate_cons_cons, ← hcons, ih]
    simp [unlines]

/-- The parser gets the lines, except for a last one that is empty. -/
theorem parseAcls_lines {ls : List Str} (h : ∀ l ∈ ls, BreakFree l) :
    parseAcls (['\n'].intercalate ls) = parseLines .empty ls := by
  rcases List.eq_nil_or_concat ls with rfl | ⟨ls, last, rfl⟩
  · rfl
  · rw [List.concat_eq_append] at h ⊢
    obtain ⟨hls, hlast⟩ := List.forall_mem_append.mp h
    have hbreak : BreakFree last := hlast last (by simp)
    rw [parseAcls, intercalate_concat, splitlines_unlines_append hls hbreak]
    by_cases hempty : last = []
    · have hspaces : ∀ l ∈ ([[]] : List Str), ∀ d ∈ l, isSpace d = true := by simp
      have hblank := parseLines_blank (readAll .empty ls) hspaces
      rw [if_pos hempty, hempty, parseLines_append, parseLines_append, hblank.1]
      rfl
    · rw [if_neg hempty]

theorem parseAcls_listing (o : AclOutput) : parseAcls o.text = o.blocks.flatMap AclBlock.acls := by
  obtain ⟨c, hblocks⟩ := parseLines_blocks_exact o.blocks .empty
  have htail : parseLines c (o.tail.map Blank.text) = [] := by
    simpa [parseLines] using parseLines_gap c o.tail []
  rw [AclOutput.text, parseAcls_lines o.lines_breakFree, AclOutput.lines, hblocks, htail,
    List.append_nil]

/-- What is parsed of a listing are the combinations of type, name, principal and operation
that stand in it. -/
theorem mem_parseAcls_listing (o : AclOutput) (a : Acl) :
    a ∈ parseAcls o.text ↔ ∃ b ∈ o.blocks, ∃ e ∈ b.entries,
      a.resourceType = b.resource.item.resourceType.text ∧
      a.resourceName = b.resource.item.name.text ∧
      a.username = e.item.user.text ∧ a.operation = e.item.operation.text := by
  rw [parseAcls_listing, List.mem_flatMap]
  constructor
  · rintro ⟨b, hb, ha⟩
    obtain ⟨e, he, rfl⟩ := List.mem_map.mp ha
    exact ⟨b, hb, e, he, rfl, rfl, rfl, rfl⟩
  · rintro ⟨b, hb, e, he, htype, hname, huser, hop⟩
    refine ⟨b, hb, List.mem_map.mpr ⟨e, he, ?_⟩⟩
    cases a
    simp only [AclBlock.acl, Acl.mk.injEq]
    exact ⟨hname.symm, htype.symm, hop.symm, huser.symm⟩

def AclWord.plain (w : Str) (h : w ≠ [] ∧ ',' ∉ w ∧ SpaceFree w ∧ KeyFree w) : AclWord :=
  ⟨w, h.1, h.2.1, h.2.2.1.breakFree, h.2.2.2⟩

def Blank.wide (n : Nat) : Blank where
  text := List.replicate n ' '
  spaces := by
    intro c hc
    rw [(List.mem_replicate.mp hc).2]
    decide
  breakFree := by
    intro c hc
    rw [(List.mem_replicate.mp hc).2]
    decide

def groupResource : AclResource :=
  ⟨.plain "GROUP" (by decide), .plain "g" (by decide), .literal⟩

def topicResource : AclResource :=
  ⟨.plain "TOPIC" (by decide), .plain "t" (by decide), .literal⟩

def readEntry : AclEntry := ⟨.plain "u" (by decide), .plain "READ" (by decide)⟩

/-- A group without entries and, behind a blank line, a topic with one. -/
def groupAndTopic : AclOutput where
  blocks :=
    [⟨⟨[], .wide 0, groupResource, .wide 0⟩, []⟩,
      ⟨⟨[.wide 0], .wide 2, topicResource, .wide 0⟩, [⟨[], .wide 4, readEntry, .wide 1⟩]⟩]
  tail := [.wide 0]

/-- The entry is of the topic, and the group gives none. -/
theorem groupAndTopic_read :
    ⟨"t", "TOPIC", "READ", "u"⟩ ∈ parseAcls groupAndTopic.text ∧
      ∀ a ∈ parseAcls groupAndTopic.text, a = ⟨"t", "TOPIC", "READ", "u"⟩ := by
  constructor
  · exact (mem_parseAcls_listing groupAndTopic _).mpr
      ⟨_, List.mem_cons_of_mem _ List.mem_cons_self, _, List.mem_cons_self, rfl, rfl, rfl, rfl⟩
  · intro a ha
    obtain ⟨b, hb, e, he, htype, hname, huser, hop⟩ := (mem_parseAcls_listing groupAndTopic a).mp ha
    rcases List.mem_cons.mp hb with rfl | hb
    · cases he
    · obtain rfl := List.mem_singleton.mp hb
      obtain rfl := List.mem_singleton.mp he
      cases a
      rw [Acl.mk.injEq]
      exact ⟨hname, htype, hop, huser⟩

end KafkaCharm
