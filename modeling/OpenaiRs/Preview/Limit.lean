import OpenaiRs.Preview.Blank

/-!
# The limit of a preview

A body is cut before it is read. A preview does not tell bodies apart that differ only in secrets, as long as
`serde_json` still reads what is left of them. One byte past the limit, the cut takes the end of an object away;
what is left is no JSON, and the redaction of texts does not know keys.
-/

namespace OpenaiRs.Preview

open Rust Json

section Laws

/-- `serde_json` reads the text. -/
def Accepted (codec : Codec) (bytes : Bytes) : Prop := ∃ value, codec.fromSlice bytes = .ok value

/-- What `serde_json::from_slice` reads. -/
structure Codec.Laws (codec : Codec) (number : Bytes → Option Serde.Number) : Prop where
  /-- Of a text the value that its tree stands for is read. -/
  reads : ∀ bytes value, codec.fromSlice bytes = .ok value →
    ∃ tree : Tree, tree.text = bytes ∧
      tree.value number (fun text => (codec.fromSlice (utf8 text)).toOption) = some value
  /-- An object of strings without escapes is read. -/
  accepts : ∀ pairs, PlainPairs pairs → (∀ pair ∈ pairs.head?, asciiText pair.1 ≠ rawValueToken) →
    Accepted codec (objectText pairs)

end Laws

section Cut

variable {codec : Codec} {number : Bytes → Option Serde.Number}

/-- What is read of the beginning of a text is the value of the text, numbers apart. -/
theorem value_of_cut (laws : codec.Laws number) {tree : Tree} {cut rest : Bytes} (h : tree.text = cut ++ rest)
    (hnumber : tree.node.kind ≠ .number) {value : Serde.Value} (hvalue : codec.fromSlice cut = .ok value) :
    tree.node.value number (fun text => (codec.fromSlice (utf8 text)).toOption) = some value := by
  obtain ⟨tree', rfl, hread⟩ := laws.reads cut value hvalue
  rw [value_eq_node] at hread
  rw [node_eq_of_begins hnumber h, hread]

theorem node_blank (tree : Tree) : (blank tree).node = blankNode tree.node := by
  obtain ⟨before, node, after⟩ := tree
  rfl

theorem kind_blankNode (node : Node) : (blankNode node).kind = node.kind := by
  cases node with
  | _ => rfl

/-- A number holds no secret. -/
theorem blank_of_number {tree : Tree} (h : tree.node.kind = .number) : blank tree = tree := by
  obtain ⟨before, node, after⟩ := tree
  cases node with
  | number number => rfl
  | _ => cases h

theorem eq_of_number {tree tree' : Tree} (hblank : blank tree = blank tree') (h : tree.node.kind = .number) :
    tree = tree' := by
  have h' : tree'.node.kind = .number := by
    rw [← kind_blankNode tree'.node, ← node_blank, ← hblank, node_blank, kind_blankNode, h]
  rw [← blank_of_number h, hblank, blank_of_number h']

/-- Bodies that differ only in secrets have the same preview, if what the cut leaves of them is read. -/
theorem text_eq_of_accepted (laws : codec.Laws number) {bytes bytes' : Bytes} {truncated truncated' : Bool}
    (h : DifferInSecrets bytes bytes') (haccepted : Accepted codec (bytes.take maxBodyPreviewBytes))
    (haccepted' : Accepted codec (bytes'.take maxBodyPreviewBytes)) :
    (fromBytes codec bytes truncated).text = (fromBytes codec bytes' truncated').text := by
  obtain ⟨tree, tree', rfl, rfl, hblank⟩ := h
  by_cases hnumber : tree.node.kind = .number
  · rw [eq_of_number hblank hnumber]
    exact text_fromBytes_congr rfl
  · obtain ⟨value, hvalue⟩ := haccepted
    obtain ⟨value', hvalue'⟩ := haccepted'
    have hnodes : blankNode tree.node = blankNode tree'.node := by rw [← node_blank, hblank, node_blank]
    have hnumber' : tree'.node.kind ≠ .number := by
      rw [← kind_blankNode, ← hnodes, kind_blankNode]
      exact hnumber
    have hsame := sameRedacted_of_blank hnodes (value_of_cut laws (List.take_append_drop _ _).symm hnumber hvalue)
      (value_of_cut laws (List.take_append_drop _ _).symm hnumber' hvalue')
    apply text_fromBytes_congr
    rw [redactedText, redactedText, hvalue, hvalue']
    dsimp only
    rw [hsame none]

end Cut

section Unread

variable {codec : Codec}

/-- ASCII text without any prefix that the redaction of texts knows. -/
def Unmarked (bytes : Bytes) : Prop :=
  (∀ b ∈ bytes, b < 0x80) ∧ ∀ m ∈ prefixes, ¬ m.text <:+: bytes.map fun b => Char.ofNat b.toNat

theorem byteLen_ascii {bytes : Bytes} (h : ∀ b ∈ bytes, b < 0x80) :
    byteLen (bytes.map fun b => Char.ofNat b.toNat) = bytes.length := by
  induction bytes with
  | nil => rfl
  | cons b rest ih =>
      have hrest := ih fun b hb => h b (List.mem_cons_of_mem _ hb)
      rw [byteLen] at hrest ⊢
      rw [List.map_cons, List.map_cons, List.sum_cons, hrest, utf8Size_ascii (h b List.mem_cons_self),
        List.length_cons, Nat.add_comm]

/-- What is not read and not marked is shown as it is. -/
theorem text_of_unread {bytes : Bytes} {truncated : Bool}
    (hunread : ¬ Accepted codec (bytes.take maxBodyPreviewBytes)) (hunmarked : Unmarked (bytes.take maxBodyPreviewBytes)) :
    (fromBytes codec bytes truncated).text = (bytes.take maxBodyPreviewBytes).map fun b => Char.ofNat b.toNat := by
  have hredacted : redactedText codec (bytes.take maxBodyPreviewBytes) =
      (bytes.take maxBodyPreviewBytes).map fun b => Char.ofNat b.toNat := by
    cases hread : codec.fromSlice (bytes.take maxBodyPreviewBytes) with
    | ok value => exact absurd ⟨value, hread⟩ hunread
    | error error =>
        rw [redactedText, hread]
        dsimp only
        rw [fromUtf8Lossy_ascii hunmarked.1, redactChars_eq]
        exact foldl_eq_self prefixes hunmarked.2
  rw [text_fromBytes, hredacted]
  rw [hredacted, byteLen_ascii hunmarked.1]
  exact List.length_take_le _ _

/-- Such previews are the same exactly when nothing differs before the cut. -/
theorem text_eq_iff_of_unread {bytes bytes' : Bytes} {truncated truncated' : Bool}
    (hunread : ¬ Accepted codec (bytes.take maxBodyPreviewBytes))
    (hunread' : ¬ Accepted codec (bytes'.take maxBodyPreviewBytes))
    (hunmarked : Unmarked (bytes.take maxBodyPreviewBytes)) (hunmarked' : Unmarked (bytes'.take maxBodyPreviewBytes)) :
    (fromBytes codec bytes truncated).text = (fromBytes codec bytes' truncated').text ↔
      bytes.take maxBodyPreviewBytes = bytes'.take maxBodyPreviewBytes := by
  rw [text_of_unread hunread hunmarked, text_of_unread hunread' hunmarked']
  constructor
  · exact ascii_injective hunmarked.1 hunmarked'.1
  · exact congrArg _

end Unread

section Leaking

def padName : Bytes := utf8 "pad"

def passwordName : Bytes := utf8 "password"

/-- As many letters as fill the limit. -/
def padText : Bytes := List.replicate 8168 0x61

theorem eq_of_mem_padText {b : UInt8} (h : b ∈ padText) : b = 0x61 := List.eq_of_mem_replicate h

/-- A password of one letter behind a member that fills the limit. -/
def leakingPairs (letter : UInt8) : List Pair :=
  [(padName, padText), (passwordName, [letter])]

def leakingBody (letter : UInt8) : Bytes := objectText (leakingPairs letter)

/-- The bytes in front of the letter. -/
def leakingFront : Bytes :=
  beginObject :: (memberText (padName, padText) ++
    comma :: quote :: (passwordName ++ [quote, colon, quote]))

theorem objectText_two (name fill name' : Bytes) (letter : UInt8) :
    objectText [(name, fill), (name', [letter])] =
      ((beginObject :: (memberText (name, fill) ++ comma :: quote :: (name' ++ [quote, colon, quote]))) ++
        [letter, quote]) ++ [endObject] := by
  simp [objectText, membersText, memberText]

theorem leakingBody_eq (letter : UInt8) :
    leakingBody letter = (leakingFront ++ [letter, quote]) ++ [endObject] :=
  objectText_two padName padText passwordName letter

theorem length_leakingFront : leakingFront.length = 8190 := by
  have hpad : padName.length = 3 := by decide
  have hpassword : passwordName.length = 8 := by decide
  have hfill : padText.length = 8168 := List.length_replicate
  simp [leakingFront, memberText, hpad, hpassword, hfill]

theorem length_leakingBody (letter : UInt8) : (leakingBody letter).length = maxBodyPreviewBytes + 1 := by
  rw [leakingBody_eq, List.length_append, List.length_append, length_leakingFront]
  rfl

/-- The cut takes the last byte away. -/
theorem take_leakingBody (letter : UInt8) :
    (leakingBody letter).take maxBodyPreviewBytes = leakingFront ++ [letter, quote] := by
  rw [leakingBody_eq]
  apply List.take_left'
  rw [List.length_append, length_leakingFront]
  rfl

/-- The letters that the two bodies differ in. -/
def letters : List UInt8 := [0x78, 0x79]

variable {letter : UInt8}

/-- The bytes of the cut bodies. -/
def leakingBytes : Bytes := utf8 "\x7b\"pad:,sworxy"

theorem mem_leakingBytes (hletter : letter ∈ letters) :
    ∀ b ∈ leakingFront ++ [letter, quote], b ∈ leakingBytes := by
  have hfixed : ∀ b ∈ [beginObject, quote, colon, comma, 0x61] ++ padName ++ passwordName ++ letters,
      b ∈ leakingBytes := by
    decide
  intro b hb
  apply hfixed
  simp only [leakingFront, memberText, List.mem_append, List.mem_cons, List.not_mem_nil, or_false] at hb ⊢
  obtain hfront | rfl | rfl := hb
  · have hpad := @eq_of_mem_padText b
    grind
  · exact .inr hletter
  · grind

theorem plainPairs_leaking (hletter : letter ∈ letters) : PlainPairs (leakingPairs letter) := by
  have hpad : Plain padName := by decide
  have hpassword : Plain passwordName := by decide
  have hletters : ∀ b ∈ letters, IsPlain b := by decide
  have hfill : Plain padText := by
    intro b hb
    rw [eq_of_mem_padText hb]
    decide
  intro pair hpair
  obtain rfl | hpair := List.mem_cons.mp hpair
  · exact ⟨hpad, hfill⟩
  · cases List.mem_singleton.mp hpair
    refine ⟨hpassword, ?_⟩
    intro b hb
    cases List.mem_singleton.mp hb
    exact hletters letter hletter

variable {codec : Codec} {number : Bytes → Option Serde.Number}

/-- The cut body is no JSON text: it begins an object and ends with a quotation mark. -/
theorem not_accepted_cut (laws : codec.Laws number) (letter : UInt8) :
    ¬ Accepted codec ((leakingBody letter).take maxBodyPreviewBytes) := by
  rintro ⟨value, hread⟩
  rw [take_leakingBody] at hread
  obtain ⟨tree, htext, -⟩ := laws.reads _ _ hread
  have hlast : (leakingFront ++ [letter, quote]).getLast? = some quote := by
    rw [List.getLast?_append_of_ne_nil _ (List.cons_ne_nil _ _)]
    rfl
  have hpadded : Padded (leakingFront ++ [letter, quote]) := htext ▸ tree.padded_text
  obtain heq | hws := hpadded.last_of_head rfl hlast
  · exact absurd heq (by decide)
  · exact absurd hws (by decide)

/-- A marker has a character that the cut bodies do not have. -/
theorem unmarked_cut (hletter : letter ∈ letters) : Unmarked ((leakingBody letter).take maxBodyPreviewBytes) := by
  have hascii : ∀ b ∈ leakingBytes, b < 0x80 := by decide
  have hforeign : ∀ m ∈ prefixes, ∃ c ∈ m.text, ∀ b ∈ leakingBytes, c ≠ Char.ofNat b.toNat := by
    decide
  rw [take_leakingBody]
  refine ⟨fun b hb => hascii b (mem_leakingBytes hletter b hb), fun m hm hin => ?_⟩
  obtain ⟨c, hc, hnot⟩ := hforeign m hm
  obtain ⟨b, hb, rfl⟩ := List.mem_map.mp (hin.subset hc)
  exact hnot b (mem_leakingBytes hletter b hb) rfl

/-- The two bodies differ in their passwords only. -/
theorem differInSecrets_leaking : DifferInSecrets (leakingBody 0x78) (leakingBody 0x79) :=
  @differInSecrets_objectText [(padName, padText)] _ _ _ (plainPairs_leaking (by decide))
    (plainPairs_leaking (by decide)) (by decide)

theorem accepted_leaking (laws : codec.Laws number) (hletter : letter ∈ letters) : Accepted codec (leakingBody letter) := by
  refine laws.accepts _ (plainPairs_leaking hletter) fun pair hpair => ?_
  cases Option.some.inj hpair
  decide

theorem leaking_text_ne (laws : codec.Laws number) :
    (fromBytes codec (leakingBody 0x78) false).text ≠ (fromBytes codec (leakingBody 0x79) false).text := by
  intro heq
  have hcut := (text_eq_iff_of_unread (not_accepted_cut laws 0x78) (not_accepted_cut laws 0x79)
    (unmarked_cut (by decide)) (unmarked_cut (by decide))).mp heq
  rw [take_leakingBody, take_leakingBody] at hcut
  exact absurd (List.append_cancel_left hcut) (by decide)

/-- Bodies that differ only in secrets have the same preview where `serde_json` reads what the cut leaves of them. Among
the bodies up to some length that it reads, all that differ only in secrets have the same preview exactly when the length
is within the limit. Where it does not read what the cut leaves, and the redaction of texts finds nothing in it, the
previews are the same exactly when nothing differs before the cut. -/
theorem preview_hides_secrets_iff (codec : Codec) (number : Bytes → Option Serde.Number) (laws : codec.Laws number)
    (length : ℕ) :
    (∀ bytes bytes', DifferInSecrets bytes bytes' → Accepted codec (bytes.take maxBodyPreviewBytes) →
      Accepted codec (bytes'.take maxBodyPreviewBytes) →
        (fromBytes codec bytes false).text = (fromBytes codec bytes' false).text) ∧
    ((∀ bytes bytes', bytes.length ≤ length → bytes'.length ≤ length → DifferInSecrets bytes bytes' →
        Accepted codec bytes → Accepted codec bytes' →
          (fromBytes codec bytes false).text = (fromBytes codec bytes' false).text) ↔
      length ≤ maxBodyPreviewBytes) ∧
    (∀ bytes bytes', ¬ Accepted codec (bytes.take maxBodyPreviewBytes) →
      ¬ Accepted codec (bytes'.take maxBodyPreviewBytes) → Unmarked (bytes.take maxBodyPreviewBytes) →
      Unmarked (bytes'.take maxBodyPreviewBytes) →
        ((fromBytes codec bytes false).text = (fromBytes codec bytes' false).text ↔
          bytes.take maxBodyPreviewBytes = bytes'.take maxBodyPreviewBytes)) := by
  refine ⟨fun bytes bytes' h => text_eq_of_accepted laws h, ⟨?_, ?_⟩, fun bytes bytes' => text_eq_iff_of_unread⟩
  · intro hall
    by_contra hlength
    have hfits : ∀ letter, (leakingBody letter).length ≤ length := by
      intro letter
      rw [length_leakingBody]
      exact Nat.lt_of_not_le hlength
    exact leaking_text_ne laws (hall _ _ (hfits _) (hfits _) differInSecrets_leaking
      (accepted_leaking laws (by decide)) (accepted_leaking laws (by decide)))
  · intro hlength bytes bytes' hbytes hbytes' h haccepted haccepted'
    apply text_eq_of_accepted laws h
    · rwa [List.take_of_length_le (hbytes.trans hlength)]
    · rwa [List.take_of_length_le (hbytes'.trans hlength)]

end Leaking

section Reader

/-- The text of an object of strings that need no escapes. -/
def flatString : Serde.Value → Except String String
  | .object members =>
      .ok ("\x7b" ++ ",".intercalate (members.map fun member =>
        "\"" ++ member.1 ++ "\":\"" ++ member.2.asStr.getD "" ++ "\"") ++ "\x7d")
  | _ => .error "not an object of strings"

/-- A text that is a flat object, and no raw value. -/
def IsFlat (bytes : Bytes) : Prop :=
  PlainPairs (pairsOf (bytes.splitOn quote)) ∧ objectText (pairsOf (bytes.splitOn quote)) = bytes ∧
    ∀ pair ∈ (pairsOf (bytes.splitOn quote)).head?, asciiText pair.1 ≠ rawValueToken

instance IsFlat.decidable : DecidablePred IsFlat := fun _ => inferInstanceAs (Decidable (_ ∧ _ ∧ _))

/-- A reader of flat objects. -/
def flatCodec : Codec where
  fromSlice bytes :=
    if IsFlat bytes then .ok (.object (Serde.Map.collect (objectMembers (pairsOf (bytes.splitOn quote)))))
    else .error "not a flat object"
  toString := flatString

theorem flatCodec_laws : flatCodec.Laws fun _ => none where
  reads _ _ h := by
    rw [flatCodec] at h
    dsimp only at h
    split at h
    · rename_i hflat
      obtain ⟨hplain, htext, htoken⟩ := hflat
      cases h
      exact ⟨flatTree (plainTexts _ hplain), (text_plainTexts hplain).trans htext, value_plainTexts hplain htoken⟩
    · cases h
  accepts pairs hplain htoken := by
    have hflat : IsFlat (objectText pairs) := by
      rw [IsFlat, pairsOf_objectText hplain]
      exact ⟨hplain, rfl, htoken⟩
    exact ⟨_, if_pos hflat⟩

/-- An object that holds a password. -/
def shortPairs (password : String) : List Pair := [(passwordName, utf8 password)]

/-- Two short bodies. -/
theorem preview_hides_secrets_iff_short :
    (fromBytes flatCodec (objectText (shortPairs "x")) false).text =
      (fromBytes flatCodec (objectText (shortPairs "yy")) false).text := by
  have hall := (preview_hides_secrets_iff flatCodec (fun _ => none) flatCodec_laws maxBodyPreviewBytes).2.1.mpr le_rfl
  have hplain : PlainPairs (shortPairs "x") ∧ PlainPairs (shortPairs "yy") := by decide
  have htoken : asciiText passwordName ≠ rawValueToken := by decide
  have haccepted : ∀ password, PlainPairs (shortPairs password) →
      Accepted flatCodec (objectText (shortPairs password)) := by
    intro password hpairs
    refine flatCodec_laws.accepts _ hpairs fun pair hpair => ?_
    cases Option.some.inj hpair
    exact htoken
  exact hall _ _ (by decide) (by decide) (@differInSecrets_objectText [] _ _ _ hplain.1 hplain.2 (by decide))
    (haccepted _ hplain.1) (haccepted _ hplain.2)

/-- Two bodies of one byte more than the limit, with passwords of one letter each. -/
theorem leakingBody_exposed :
    DifferInSecrets (leakingBody 0x78) (leakingBody 0x79) ∧
      (fromBytes flatCodec (leakingBody 0x78) false).text ≠
        (fromBytes flatCodec (leakingBody 0x79) false).text :=
  ⟨differInSecrets_leaking, leaking_text_ne flatCodec_laws⟩

end Reader

end OpenaiRs.Preview
