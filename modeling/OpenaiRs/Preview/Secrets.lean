import OpenaiRs.Preview.Inline

/-!
# Secrets behind a prefix

Whether the output of inline redaction depends on the text behind a prefix. A prefix without a space always
hides it. A secret of an earlier `Bearer` can run into the next `Bearer` and stop at the space between the
word and its secret, which then stays in the output.
-/

namespace OpenaiRs.Preview

open Text

section Definitions

/-- A text without whitespace and delimiters. -/
def Secret (s : List Char) : Prop := ∀ c ∈ s, endsSecret c = false

/-- A text that is empty or starts with whitespace or a delimiter. -/
def Bounded (b : List Char) : Prop := ∀ c ∈ b.head?, endsSecret c = true

def EndsInBearer (s : List Char) : Prop := "Bearer".toList <:+ s ∨ "bearer".toList <:+ s

/-- The text ends within a secret behind the prefix. -/
def EndsInSecret (m : Marker) (text : List Char) : Prop := endsInBody m.text endsSecret text = true

/-- The text ends within a secret behind `bearer `, and this word stands in no secret of a `Bearer ` or `bearer ` in
front of it. -/
def EndsBehindBearer (text : List Char) : Prop :=
  ∃ (front body : List Char) (_ : text = front ++ (bearerLower.text ++ body)), Secret body ∧
    ¬ EndsInSecret bearerUpper front ∧ ¬ EndsBehindBearer front
termination_by text.length
decreasing_by
  have hpos := List.length_pos_of_ne_nil bearerLower.text_ne_nil
  subst text
  rw [List.length_append, List.length_append]
  omega

/-- A secret that is open at the end of the text runs into the prefix, up to its space. -/
def Swallows (text : List Char) (m : Marker) : Prop :=
  (m.name = "Bearer " ∧ EndsInSecret bearerUpper text) ∨
    (m.name = "bearer " ∧ (EndsInSecret bearerUpper text ∨ EndsBehindBearer text))

instance instDecidableSecret (s : List Char) : Decidable (Secret s) :=
  inferInstanceAs (Decidable (∀ c ∈ s, _))

instance instDecidableBounded (b : List Char) : Decidable (Bounded b) :=
  inferInstanceAs (Decidable (∀ c ∈ b.head?, _))

instance instDecidableEndsInBearer (s : List Char) : Decidable (EndsInBearer s) :=
  inferInstanceAs (Decidable (_ ∨ _))

/-- A prefix without whitespace. -/
def Marker.Plain (m : Marker) : Prop := ∀ c ∈ m.text, endsSecret c = false

end Definitions

section Facts

/-- No prefix is within another one, and the end of a prefix is not the start of one. -/
theorem prefixes_apart : ∀ m ∈ prefixes, ∀ m' ∈ prefixes, (m.text <:+: m'.text → m.text = m'.text) ∧
    ∀ tail ∈ m.text.tails, tail ≠ [] → tail ≠ m.text → ¬ tail <+: m'.text ∧ ¬ m'.text <+: tail := by
  decide

/-- A prefix is longer than its last character, which alone may end a secret. -/
theorem prefixes_word : ∀ m ∈ prefixes, m.text.dropLast ≠ [] ∧ (∀ c ∈ m.text.dropLast, endsSecret c = false) ∧
    (∀ c ∈ m.text.head?, endsSecret c = false ∧ ∀ c' ∈ " xy".toList, c ≠ c') ∧
    (m.name = "Bearer " ∨ m.name = "bearer " → Secret m.text.dropLast ∧ m.text.getLast? = some ' ') := by
  decide

/-- The two words with a space behind them. -/
theorem bearer_words : bearerUpper.text.dropLast = "Bearer".toList ∧ bearerLower.text.dropLast = "bearer".toList ∧
    bearerUpper.text ≠ bearerLower.text ∧ ' ' ∈ bearerUpper.text ∧ ' ' ∈ bearerLower.text ∧
    endsSecret ' ' = true ∧ Secret redacted ∧ ¬ redacted <:+ bearerLower.text.dropLast ∧
    ¬ bearerLower.text.dropLast <:+ redacted := by
  decide

/-- Two secrets of one letter. -/
theorem letters_xy : (∀ c ∈ "xy".toList, Secret [c] ∧ ¬ EndsInBearer [c] ∧ c ∈ " xy".toList) ∧
    ' ' ∈ " xy".toList ∧ 'x' ∈ "xy".toList ∧ 'y' ∈ "xy".toList := by
  decide

end Facts

section Cuts

variable {m m' : Marker}

/-- The end of a prefix is not the start of one. -/
theorem tail_apart (hm : m ∈ prefixes) (hm' : m' ∈ prefixes) {tail : List Char} (htail : tail <:+ m.text)
    (hne : tail ≠ []) (hpart : tail ≠ m.text) : ¬ tail <+: m'.text ∧ ¬ m'.text <+: tail :=
  (prefixes_apart m hm m' hm').2 tail ((List.mem_tails _ _).mpr htail) hne hpart

theorem text_eq_of_within (hm : m ∈ prefixes) (hm' : m' ∈ prefixes) (h : m.text <:+: m'.text) :
    m.text = m'.text :=
  (prefixes_apart m hm m' hm').1 h

/-- A lead that does not end in a text starts with the rest of the text. -/
theorem split_of_cut {lead tail right : List Char} (h : lead <+: tail ++ right) (hno : ¬ lead <+: tail) :
    ∃ more, tail ++ more = lead ∧ more ≠ [] ∧ more <+: right := by
  obtain hin | ⟨more, hmore⟩ := List.prefix_or_prefix_of_prefix h (List.prefix_append tail right)
  · exact absurd hin hno
  · refine ⟨more, hmore, ?_, ?_⟩
    · rintro rfl
      rw [List.append_nil] at hmore
      exact hno (hmore ▸ List.prefix_refl _)
    · rw [← hmore] at h
      exact (List.prefix_append_right_inj tail).mp h

theorem cut_marker (hm : m ∈ prefixes) (hm' : m' ∈ prefixes) (a w : List Char) :
    Cut m.text a (m'.text ++ w) := by
  intro tail _ hne hpre
  by_contra hno
  obtain ⟨more, hmore, hmore_ne, hright⟩ := split_of_cut hpre hno
  have hpart : more ≠ m.text := by
    rintro rfl
    exact hne (List.append_left_eq_self.mp hmore)
  have hapart := tail_apart hm hm' ⟨tail, hmore⟩ hmore_ne hpart
  obtain hin | hin := List.prefix_or_prefix_of_prefix hright (List.prefix_append m'.text w)
  · exact hapart.1 hin
  · exact hapart.2 hin

theorem cut_behind_marker (hm : m ∈ prefixes) (hm' : m' ∈ prefixes) (w : List Char) :
    Cut m.text m'.text w := by
  intro tail htail hne hpre
  by_contra hno
  obtain ⟨more, hmore, -⟩ := split_of_cut hpre hno
  have hin : tail <+: m.text := ⟨more, hmore⟩
  by_cases hwhole : tail = m'.text
  · subst hwhole
    have heq := text_eq_of_within hm' hm hin.isInfix
    exact hno (heq ▸ List.prefix_refl _)
  · exact (tail_apart hm' hm htail hne hwhole).1 hin

/-- A prefix reaches into a bounded text only with its space. -/
theorem cut_bounded (hm : m ∈ prefixes) {s b : List Char} (hb : Bounded b)
    (hclose : ¬ m.Plain → ¬ m.text.dropLast <:+ s) : Cut m.text s b := by
  intro tail htail _ hpre
  by_contra hno
  obtain ⟨more, hmore, hmore_ne, hright⟩ := split_of_cut hpre hno
  obtain ⟨c, more, rfl⟩ := List.exists_cons_of_ne_nil hmore_ne
  obtain ⟨behind, hbehind⟩ := hright
  have hends : endsSecret c = true := hb c (by rw [← hbehind]; rfl)
  have hmem : c ∈ m.text := hmore ▸ List.mem_append_right tail List.mem_cons_self
  have hinner : ∀ m ∈ prefixes, ∀ c ∈ m.text.dropLast, endsSecret c = false := fun m hm => (prefixes_word m hm).2.1
  have hmore_nil : more = [] := by
    by_contra hne
    have hdrop : c ∈ m.text.dropLast := by
      rw [← hmore, List.dropLast_append_of_ne_nil (List.cons_ne_nil _ _),
        List.dropLast_cons_of_ne_nil hne]
      exact List.mem_append_right tail List.mem_cons_self
    rw [hinner m hm c hdrop] at hends
    cases hends
  subst hmore_nil
  refine hclose (fun hplain => ?_) ?_
  · rw [hplain c hmem] at hends
    cases hends
  · rw [← hmore, List.dropLast_concat]
    exact htail

end Cuts

section Passes

variable {m p : Marker} {a s b : List Char}

theorem Bounded.redactPass (hm : m ∈ prefixes) (hb : Bounded b) : Bounded (redactPass m b) := by
  cases b with
  | nil =>
      rw [Preview.redactPass, replaceBodies]
      exact hb
  | cons c b =>
      have hfirst : ∀ m ∈ prefixes, ∀ c ∈ m.text.head?, endsSecret c = false :=
        fun m hm c hc => ((prefixes_word m hm).2.2.1 c hc).1
      have hmatch : ¬ m.text <+: c :: b := by
        intro hin
        obtain ⟨c', rest, hm'⟩ := List.exists_cons_of_ne_nil m.text_ne_nil
        rw [hm', List.cons_prefix_cons] at hin
        have hends := hfirst m hm c' (by rw [hm']; rfl)
        rw [hin.1, hb c rfl] at hends
        cases hends
      rw [Preview.redactPass, replaceBodies_cons redacted endsSecret hmatch]
      exact hb

theorem secret_redacted : Secret redacted := bearer_words.2.2.2.2.2.2.1

theorem Secret.redactPass (hs : Secret s) (m : Marker) : Secret (redactPass m s) :=
  forall_replaceBodies m.text_ne_nil secret_redacted hs

/-- The text up to a bound is a body. -/
theorem afterBody_secret (hs : Secret s) (hb : Bounded b) : afterBody endsSecret (s ++ b) = b := by
  rw [afterBody_append_of_forall hs, afterBody_eq_self hb]

/-- A pass for another prefix keeps the prefix and its secret apart from the rest. -/
theorem pass_core (hm : m ∈ prefixes) (hp : p ∈ prefixes) (hne : m.text ≠ p.text)
    (hopen : ¬ EndsInSecret m a) (hb : Bounded b) (hclose : ¬ m.Plain → ¬ m.text.dropLast <:+ s) :
    redactPass m (a ++ (p.text ++ (s ++ b))) =
      redactPass m a ++ (p.text ++ (redactPass m s ++ redactPass m b)) := by
  have hopen' : endsInBody m.text endsSecret a = false := by simpa [EndsInSecret] using hopen
  have hnone : ¬ m.text <:+: p.text := fun hin => hne (text_eq_of_within hm hp hin)
  have hbody : (if endsInBody m.text endsSecret s then afterBody endsSecret b else b) = b := by
    split
    · exact afterBody_eq_self hb
    · rfl
  rw [redactPass, replaceBodies_append m.text_ne_nil (cut_marker hm hp a _), hopen',
    if_neg Bool.false_ne_true, replaceBodies_append m.text_ne_nil (cut_behind_marker hm hp _),
    replaceBodies_eq_self m.text_ne_nil hnone, endsInBody_eq_false m.text_ne_nil hnone,
    if_neg Bool.false_ne_true, replaceBodies_append m.text_ne_nil (cut_bounded hm hb hclose), hbody]

/-- A pass whose secret is open in front of the prefix goes on in it. -/
theorem pass_open (hm : m ∈ prefixes) (hp : p ∈ prefixes) (hopen : EndsInSecret m a) (w : List Char) :
    redactPass m (a ++ (p.text ++ w)) =
      redactPass m a ++ redactPass m (afterBody endsSecret (p.text ++ w)) := by
  have hopen' : endsInBody m.text endsSecret a = true := hopen
  rw [redactPass, replaceBodies_append m.text_ne_nil (cut_marker hm hp a _), hopen', if_pos rfl]

/-- The pass for the prefix replaces it with its secret. -/
theorem pass_matched (hp : p ∈ prefixes) (hopen : ¬ EndsInSecret p a) (hs : Secret s) (hb : Bounded b) :
    redactPass p (a ++ (p.text ++ (s ++ b))) = redactPass p a ++ (redacted ++ redactPass p b) := by
  have hopen' : endsInBody p.text endsSecret a = false := by simpa [EndsInSecret] using hopen
  rw [redactPass, replaceBodies_append p.text_ne_nil (cut_marker hp hp a _), hopen',
    if_neg Bool.false_ne_true, replaceBodies_lead p.text_ne_nil, afterBody_secret hs hb]

theorem pass_open_plain (hm : m ∈ prefixes) (hp : p ∈ prefixes) (hplain : p.Plain)
    (hopen : EndsInSecret m a) (hs : Secret s) (hb : Bounded b) :
    redactPass m (a ++ (p.text ++ (s ++ b))) = redactPass m a ++ redactPass m b := by
  rw [pass_open hm hp hopen, afterBody_append_of_forall hplain, afterBody_secret hs hb]

end Passes

section Hidden

variable {p : Marker} {a s s' b : List Char}

/-- The prefixes behind the two with a space. -/
def plainPrefixes : List Marker := [skKey, sessKey, apiKeyEq, tokenEq]

theorem plainPrefixes_facts : ∀ m ∈ plainPrefixes, (∀ c ∈ m.text, endsSecret c = false) ∧
    bearerUpper.text ≠ m.text ∧ bearerLower.text ≠ m.text := by
  decide

theorem plain_of_mem {m : Marker} (hm : m ∈ plainPrefixes) : m ∈ prefixes ∧ m.Plain :=
  ⟨List.mem_cons_of_mem _ (List.mem_cons_of_mem _ hm), (plainPrefixes_facts m hm).1⟩

def plainPasses (text : List Char) : List Char :=
  plainPrefixes.foldl (fun output m => redactPass m output) text

theorem redactChars_passes (input : List Char) :
    redactChars input = plainPasses (redactPass bearerLower (redactPass bearerUpper input)) :=
  redactChars_eq input

/-- Passes for prefixes without a space hide every secret behind one of them. -/
theorem foldl_hides {ms : List Marker} (hms : ∀ m ∈ ms, m ∈ plainPrefixes) (hp : p ∈ ms) (a : List Char)
    {b : List Char} (hs : Secret s) (hs' : Secret s') (hb : Bounded b) :
    ms.foldl (fun output m => redactPass m output) (a ++ (p.text ++ (s ++ b))) =
      ms.foldl (fun output m => redactPass m output) (a ++ (p.text ++ (s' ++ b))) := by
  induction ms generalizing a s s' b with
  | nil => cases hp
  | cons m ms ih =>
      obtain ⟨hm, hplain⟩ := plain_of_mem (hms m List.mem_cons_self)
      obtain ⟨hpin, hpplain⟩ := plain_of_mem (hms p hp)
      rw [List.foldl_cons, List.foldl_cons]
      by_cases hopen : EndsInSecret m a
      · rw [pass_open_plain hm hpin hpplain hopen hs hb, pass_open_plain hm hpin hpplain hopen hs' hb]
      · obtain rfl | hrest := List.mem_cons.mp hp
        · rw [pass_matched hm hopen hs hb, pass_matched hm hopen hs' hb]
        · by_cases hsame : m.text = p.text
          · have heq : redactPass m (a ++ (p.text ++ (s ++ b))) =
                redactPass m (a ++ (p.text ++ (s' ++ b))) := by
              rw [← hsame, pass_matched hm hopen hs hb, pass_matched hm hopen hs' hb]
            rw [heq]
          · rw [pass_core hm hpin hsame hopen hb (absurd hplain),
              pass_core hm hpin hsame hopen hb (absurd hplain)]
            exact ih (fun m hm => hms m (List.mem_cons_of_mem _ hm)) hrest _ (hs.redactPass m)
              (hs'.redactPass m) (hb.redactPass hm)

/-- The passes for the prefixes with a space leave a secret as it is. -/
theorem redactPass_secret {m : Marker} (hspace : ∃ c ∈ m.text, endsSecret c = true) (hs : Secret s) :
    redactPass m s = s := by
  refine replaceBodies_eq_self m.text_ne_nil ?_
  intro hin
  obtain ⟨c, hc, hends⟩ := hspace
  rw [hs c (hin.subset hc)] at hends
  cases hends

theorem upper_spaced : ∃ c ∈ bearerUpper.text, endsSecret c = true :=
  ⟨' ', bearer_words.2.2.2.1, bearer_words.2.2.2.2.2.1⟩

theorem lower_spaced : ∃ c ∈ bearerLower.text, endsSecret c = true :=
  ⟨' ', bearer_words.2.2.2.2.1, bearer_words.2.2.2.2.2.1⟩

theorem upper_mem : bearerUpper ∈ prefixes := List.mem_cons_self

theorem lower_mem : bearerLower ∈ prefixes := List.mem_cons_of_mem _ List.mem_cons_self

theorem bearerLower_text : bearerLower.text = 'b' :: "earer ".toList := by
  decide

/-- No secret ends in the first character of a word, and the lower word and the mark have no first character of each
other. -/
theorem upper_head : ∀ c ∈ bearerUpper.text.head?, endsSecret c = false := by
  decide

theorem lower_fresh : (∀ c ∈ redacted.head?, c ∉ bearerLower.text) ∧
    ∀ c ∈ bearerLower.text.head?, endsSecret c = false ∧ c ∉ redacted := by
  decide

theorem upper_close (hend : ¬ EndsInBearer s) : ¬ bearerUpper.text.dropLast <:+ s := by
  have hword : bearerUpper.text.dropLast = "Bearer".toList := bearer_words.1
  rw [hword]
  exact fun h => hend (.inl h)

theorem lower_close (hend : ¬ EndsInBearer s) : ¬ bearerLower.text.dropLast <:+ s := by
  have hword : bearerLower.text.dropLast = "bearer".toList := bearer_words.2.1
  rw [hword]
  exact fun h => hend (.inr h)

/-- A secret of `bearer ` at the end of a text is open, unless its word stands in another one. -/
theorem endsInSecret_append_lower (front : List Char) {body : List Char} (hbody : Secret body) :
    EndsInSecret bearerLower (front ++ (bearerLower.text ++ body)) ↔ ¬ EndsInSecret bearerLower front := by
  have hword := (prefixes_word bearerLower lower_mem).2.2.2 (.inr rfl)
  have hsplit : bearerLower.text = bearerLower.text.dropLast ++ [' '] :=
    (List.dropLast_append_getLast? ' ' hword.2).symm
  have hspace : endsSecret ' ' = true := bearer_words.2.2.2.2.2.1
  rw [EndsInSecret, EndsInSecret, endsInBody_append bearerLower.text_ne_nil (cut_marker lower_mem lower_mem front body)]
  by_cases hopen : endsInBody bearerLower.text endsSecret front = true
  · -- the open secret ends at the space of the word, and behind it stands no other word
    have hbounded : Bounded (' ' :: body) := by
      rintro _ ⟨⟩
      exact hspace
    have hafter : afterBody endsSecret (bearerLower.text ++ body) = ' ' :: body := by
      rw [hsplit, List.append_assoc]
      exact afterBody_secret hword.1 hbounded
    have hnone : ¬ bearerLower.text <:+: ' ' :: body := by
      rw [List.infix_cons_iff]
      rintro (hin | hin)
      · rw [bearerLower_text, List.cons_prefix_cons] at hin
        exact absurd hin.1 (by decide)
      · have hends := hbody ' ' (hin.subset bearer_words.2.2.2.2.1)
        rw [hspace] at hends
        cases hends
    rw [if_pos hopen, hafter, endsInBody_eq_false bearerLower.text_ne_nil hnone]
    simp [hopen]
  · have hafter : afterBody endsSecret body = [] := by
      have hbounded : Bounded [] := fun c hc => by cases hc
      have hnil := afterBody_secret hbody hbounded
      rwa [List.append_nil] at hnil
    rw [if_neg hopen, endsInBody_lead bearerLower.text_ne_nil, hafter]
    simp [hopen]

/-- The pass for `Bearer ` goes through a `bearer ` and its secret. -/
theorem redactPass_append_lower {front body : List Char} (hopen : ¬ EndsInSecret bearerUpper front)
    (hbody : Secret body) :
    redactPass bearerUpper (front ++ (bearerLower.text ++ body)) =
      redactPass bearerUpper front ++ (bearerLower.text ++ body) := by
  have hopen' : endsInBody bearerUpper.text endsSecret front = false := by simpa [EndsInSecret] using hopen
  have hnone : ¬ bearerUpper.text <:+: bearerLower.text :=
    fun hin => bearer_words.2.2.1 (text_eq_of_within upper_mem lower_mem hin)
  have hkept : replaceBodies bearerUpper.text redacted endsSecret body = body := redactPass_secret upper_spaced hbody
  rw [redactPass, replaceBodies_append bearerUpper.text_ne_nil (cut_marker upper_mem lower_mem front body), hopen',
    if_neg Bool.false_ne_true, replaceBodies_append bearerUpper.text_ne_nil (cut_behind_marker upper_mem lower_mem body),
    replaceBodies_eq_self bearerUpper.text_ne_nil hnone, endsInBody_eq_false bearerUpper.text_ne_nil hnone,
    if_neg Bool.false_ne_true, hkept]

/-- Where no secret of `Bearer ` is open, a secret of `bearer ` that is open behind the pass is one of the text. -/
theorem endsInSecret_redactPass {text : List Char} (hclosed : ¬ EndsInSecret bearerUpper text) :
    EndsInSecret bearerLower (redactPass bearerUpper text) ↔ EndsBehindBearer text := by
  induction hlength : text.length using Nat.strongRecOn generalizing text with
  | _ length ih =>
      have hfront : ∀ {front body : List Char}, text = front ++ (bearerLower.text ++ body) → Secret body →
          ¬ EndsInSecret bearerUpper front →
            (EndsInSecret bearerLower (redactPass bearerUpper text) ↔ ¬ EndsBehindBearer front) := by
        intro front body htext hbody hopen
        have hless : front.length < length := by
          have hpos := List.length_pos_of_ne_nil bearerLower.text_ne_nil
          rw [← hlength, htext, List.length_append, List.length_append]
          omega
        rw [htext, redactPass_append_lower hopen hbody, endsInSecret_append_lower _ hbody, ih _ hless hopen rfl]
      rw [EndsBehindBearer]
      constructor
      · intro h
        obtain ⟨front, body, hpass, hbody⟩ := exists_lead_of_endsInBody bearerLower.text_ne_nil h
        obtain ⟨front', htext, hopen⟩ := exists_front_of_replaceBodies bearerUpper.text_ne_nil redacted_ne_nil
          upper_head bearerLower.text_ne_nil lower_fresh.1 lower_fresh.2 hbody (by simpa [EndsInSecret] using hclosed) hpass
        have hopen' : ¬ EndsInSecret bearerUpper front' := by simp [EndsInSecret, hopen]
        exact ⟨front', body, htext, hbody, hopen', (hfront htext hbody hopen').mp h⟩
      · rintro ⟨front, body, htext, hbody, hopen, hnone⟩
        exact (hfront htext hbody hopen).mpr hnone

/-- Unless it is swallowed, a prefix hides its secret. -/
theorem redactChars_hides (hp : p ∈ prefixes) (hswallows : ¬ Swallows a p) (hb : Bounded b)
    (hs : Secret s) (hs' : Secret s') (hend : ¬ EndsInBearer s) (hend' : ¬ EndsInBearer s') :
    redactChars (a ++ (p.text ++ (s ++ b))) = redactChars (a ++ (p.text ++ (s' ++ b))) := by
  have hupper : ∀ {s : List Char}, Secret s → ¬ EndsInBearer s → ¬ EndsInSecret bearerUpper a →
      bearerUpper.text ≠ p.text → redactPass bearerUpper (a ++ (p.text ++ (s ++ b))) =
        redactPass bearerUpper a ++ (p.text ++ (s ++ redactPass bearerUpper b)) := by
    intro s hs hend hopen hne
    rw [pass_core upper_mem hp hne hopen hb (fun _ => upper_close hend),
      redactPass_secret upper_spaced hs]
  rw [redactChars_passes, redactChars_passes]
  obtain rfl | hp' := List.mem_cons.mp hp
  · have hopen : ¬ EndsInSecret bearerUpper a := fun h => hswallows (.inl ⟨rfl, h⟩)
    rw [pass_matched hp hopen hs hb, pass_matched hp hopen hs' hb]
  · obtain rfl | hp' := List.mem_cons.mp hp'
    · have hopen : ¬ EndsInSecret bearerUpper a := fun h => hswallows (.inr ⟨rfl, .inl h⟩)
      have hopen' : ¬ EndsInSecret bearerLower (redactPass bearerUpper a) :=
        fun h => hswallows (.inr ⟨rfl, .inr ((endsInSecret_redactPass hopen).mp h)⟩)
      have hne : bearerUpper.text ≠ bearerLower.text := bearer_words.2.2.1
      rw [hupper hs hend hopen hne, hupper hs' hend' hopen hne,
        pass_matched hp hopen' hs (hb.redactPass upper_mem),
        pass_matched hp hopen' hs' (hb.redactPass upper_mem)]
    · have hplain := (plain_of_mem hp').2
      have hne : ∀ m ∈ plainPrefixes, bearerUpper.text ≠ m.text ∧ bearerLower.text ≠ m.text :=
        fun m hm => (plainPrefixes_facts m hm).2
      by_cases hopen : EndsInSecret bearerUpper a
      · rw [pass_open_plain upper_mem hp hplain hopen hs hb, pass_open_plain upper_mem hp hplain hopen hs' hb]
      · rw [hupper hs hend hopen (hne p hp').1, hupper hs' hend' hopen (hne p hp').1]
        have hb' := hb.redactPass upper_mem
        by_cases hopen' : EndsInSecret bearerLower (redactPass bearerUpper a)
        · rw [pass_open_plain lower_mem hp hplain hopen' hs hb',
            pass_open_plain lower_mem hp hplain hopen' hs' hb']
        · rw [pass_core lower_mem hp (hne p hp').2 hopen' hb' (fun _ => lower_close hend),
            pass_core lower_mem hp (hne p hp').2 hopen' hb' (fun _ => lower_close hend'),
            redactPass_secret lower_spaced hs, redactPass_secret lower_spaced hs']
          exact foldl_hides (fun _ h => h) hp' _ hs hs' (hb'.redactPass lower_mem)

end Hidden

section Exposed

variable {m p : Marker} {a b : List Char}

/-- A text behind a space that is no part of a prefix stays in the output. -/
theorem pass_exposed (hm : m ∈ prefixes) {front : List Char} {c : Char} (hc : c ∈ "xy".toList)
    (hclose : ¬ m.Plain → ¬ m.text.dropLast <:+ front) (behind : List Char) :
    redactPass m (front ++ ' ' :: c :: behind) = redactPass m front ++ ' ' :: c :: redactPass m behind := by
  have hspace : endsSecret ' ' = true := bearer_words.2.2.2.2.2.1
  have hbounded : Bounded (' ' :: c :: behind) := by
    rintro _ ⟨⟩
    exact hspace
  have hbody : (if endsInBody m.text endsSecret front then afterBody endsSecret (' ' :: c :: behind)
      else ' ' :: c :: behind) = ' ' :: c :: behind := by
    split
    · exact afterBody_eq_self hbounded
    · rfl
  have hfirst : ∀ m ∈ prefixes, ∀ c ∈ " xy".toList, ∀ c' ∈ m.text.head?, c' ≠ c :=
    fun m hm c hc c' hc' => ((prefixes_word m hm).2.2.1 c' hc').2 c hc
  have hstart : ∀ c ∈ " xy".toList, ∀ rest, ¬ m.text <+: c :: rest := by
    intro c hc rest hin
    obtain ⟨c', tail, htext⟩ := List.exists_cons_of_ne_nil m.text_ne_nil
    rw [htext, List.cons_prefix_cons] at hin
    exact hfirst m hm c hc c' (by rw [htext]; rfl) hin.1
  have hletters : "xy".toList ⊆ " xy".toList := fun c hc => (letters_xy.1 c hc).2.2
  have hblank : ' ' ∈ " xy".toList := letters_xy.2.1
  rw [redactPass, replaceBodies_append m.text_ne_nil (cut_bounded hm hbounded hclose), hbody,
    replaceBodies_cons _ _ (hstart ' ' hblank _), replaceBodies_cons _ _ (hstart c (hletters hc) _)]

theorem foldl_exposed {ms : List Marker} (hms : ∀ m ∈ ms, m ∈ plainPrefixes) {c : Char}
    (hc : c ∈ "xy".toList) (front behind : List Char) :
    ms.foldl (fun output m => redactPass m output) (front ++ ' ' :: c :: behind) =
      ms.foldl (fun output m => redactPass m output) front ++
        ' ' :: c :: ms.foldl (fun output m => redactPass m output) behind := by
  induction ms generalizing front behind with
  | nil => rfl
  | cons m ms ih =>
      obtain ⟨hm, hplain⟩ := plain_of_mem (hms m List.mem_cons_self)
      rw [List.foldl_cons, pass_exposed hm hc (absurd hplain)]
      exact ih (fun m hm => hms m (List.mem_cons_of_mem _ hm)) _ _

/-- A secret that is open in front of a prefix with a space ends at this space. -/
theorem pass_swallowed (hm : m ∈ prefixes) (hp : p ∈ prefixes) (hword : Secret p.text.dropLast)
    (hlast : p.text.getLast? = some ' ') (hopen : EndsInSecret m a) {c : Char} (hc : c ∈ "xy".toList) :
    redactPass m (a ++ (p.text ++ ([c] ++ b))) = redactPass m a ++ ' ' :: c :: redactPass m b := by
  have htext : p.text = p.text.dropLast ++ [' '] :=
    (List.dropLast_append_getLast? ' ' hlast).symm
  have hbounded : Bounded (' ' :: c :: b) := by
    rintro _ ⟨⟩
    exact bearer_words.2.2.2.2.2.1
  have hafter : afterBody endsSecret (p.text ++ ([c] ++ b)) = ' ' :: c :: b := by
    rw [htext, List.append_assoc]
    exact afterBody_secret hword hbounded
  have hnil : ¬ m.Plain → ¬ m.text.dropLast <:+ [] := by
    intro _ hin
    exact (prefixes_word m hm).1 (List.suffix_nil.mp hin)
  have hbehind := pass_exposed hm hc hnil b
  rw [List.nil_append, redactPass, replaceBodies, List.nil_append] at hbehind
  rw [pass_open hm hp hopen, hafter, redactPass, hbehind]

/-- A text that ends with a mark does not end with a prefix word. -/
theorem lower_close_redacted {front : List Char} (h : redacted <:+ front) :
    ¬ bearerLower.text.dropLast <:+ front := by
  intro hin
  have hfacts : ¬ redacted <:+ bearerLower.text.dropLast ∧ ¬ bearerLower.text.dropLast <:+ redacted :=
    bearer_words.2.2.2.2.2.2.2
  obtain hin' | hin' := List.suffix_or_suffix_of_suffix h hin
  · exact hfacts.1 hin'
  · exact hfacts.2 hin'

theorem secret_xy {c : Char} (hc : c ∈ "xy".toList) : Secret [c] ∧ ¬ EndsInBearer [c] :=
  ⟨(letters_xy.1 c hc).1, (letters_xy.1 c hc).2.1⟩

/-- A swallowed prefix leaves the text behind it in the output. -/
theorem redactChars_exposes (hp : p ∈ prefixes) (hswallows : Swallows a p) (hb : Bounded b) :
    ∃ front behind, ∀ c ∈ "xy".toList,
      redactChars (a ++ (p.text ++ ([c] ++ b))) = front ++ ' ' :: c :: behind := by
  have hspaced : ∀ p ∈ prefixes, p.name = "Bearer " ∨ p.name = "bearer " →
      Secret p.text.dropLast ∧ p.text.getLast? = some ' ' := fun p hp => (prefixes_word p hp).2.2.2
  refine ⟨plainPasses (redactPass bearerLower (redactPass bearerUpper a)),
    plainPasses (redactPass bearerLower (redactPass bearerUpper b)), ?_⟩
  intro c hc
  by_cases hopen : EndsInSecret bearerUpper a
  · have hname : p.name = "Bearer " ∨ p.name = "bearer " := hswallows.imp (·.1) (·.1)
    obtain ⟨hword, hlast⟩ := hspaced p hp hname
    have hmark : redacted <:+ redactPass bearerUpper a :=
      mark_suffix_of_endsInBody bearerUpper.text_ne_nil hopen
    have hclose := lower_close_redacted hmark
    rw [redactChars_passes, pass_swallowed upper_mem hp hword hlast hopen hc,
      pass_exposed lower_mem hc (fun _ => hclose)]
    exact foldl_exposed (fun _ h => h) hc _ _
  · obtain ⟨-, hopen'⟩ | ⟨hname, hopen' | hlower⟩ := hswallows
    · exact absurd hopen' hopen
    · exact absurd hopen' hopen
    · obtain ⟨hword, hlast⟩ := hspaced p hp (.inr hname)
      have hne : bearerUpper.text ≠ p.text := by
        have hlower : p.text = bearerLower.text := congrArg String.toList hname
        exact hlower ▸ bearer_words.2.2.1
      obtain ⟨hs, hend⟩ := secret_xy hc
      rw [redactChars_passes, pass_core upper_mem hp hne hopen hb (fun _ => upper_close hend),
        redactPass_secret upper_spaced hs, pass_swallowed lower_mem hp hword hlast ((endsInSecret_redactPass hopen).mpr hlower) hc]
      exact foldl_exposed (fun _ h => h) hc _ _

end Exposed

section Main

theorem toList_redactInline (input : String) : (redactInline input).toList = redactChars input.toList :=
  String.toList_ofList

theorem toList_redactInline_append (p : Marker) (a b s : String) :
    (redactInline (a ++ p.name ++ s ++ b)).toList =
      redactChars (a.toList ++ (p.text ++ (s.toList ++ b.toList))) := by
  rw [toList_redactInline, String.toList_append, String.toList_append, String.toList_append,
    List.append_assoc, List.append_assoc]
  rfl

/-- Inline redaction terminates, leaves none of the prefixes and changes nothing the second time. It hides
the text behind a prefix, whatever it is, exactly when no secret in front swallows the prefix. -/
theorem redactInline_hides_iff (p : Marker) (hp : p ∈ prefixes) (a b : String) (hb : Bounded b.toList) :
    (∀ input : String, (∀ m ∈ prefixes, ¬ m.text <:+: (redactInline input).toList) ∧
      redactInline (redactInline input) = redactInline input) ∧
    ((∀ s s' : String, Secret s.toList → Secret s'.toList → ¬ EndsInBearer s.toList →
        ¬ EndsInBearer s'.toList →
          redactInline (a ++ p.name ++ s ++ b) = redactInline (a ++ p.name ++ s' ++ b)) ↔
      ¬ Swallows a.toList p) := by
  have htext := toList_redactInline_append p a b
  refine ⟨fun input => ⟨fun m hm => ?_, ?_⟩, ?_, ?_⟩
  · rw [toList_redactInline]
    exact not_infix_redactChars hm input.toList
  · apply String.toList_injective
    rw [toList_redactInline, toList_redactInline]
    exact redactChars_redactChars input.toList
  · intro hall hswallows
    obtain ⟨front, behind, hexposed⟩ := redactChars_exposes hp hswallows hb
    have hletters : ∀ c ∈ "xy".toList, Secret (String.ofList [c]).toList ∧
        ¬ EndsInBearer (String.ofList [c]).toList := by
      intro c hc
      rw [String.toList_ofList]
      exact secret_xy hc
    have hx : 'x' ∈ "xy".toList := letters_xy.2.2.1
    have hy : 'y' ∈ "xy".toList := letters_xy.2.2.2
    have hsame := congrArg String.toList (hall _ _ (hletters 'x' hx).1 (hletters 'y' hy).1
      (hletters 'x' hx).2 (hletters 'y' hy).2)
    rw [htext, htext, String.toList_ofList, String.toList_ofList, hexposed 'x' hx, hexposed 'y' hy] at hsame
    simp at hsame
  · intro hswallows s s' hs hs' hend hend'
    apply String.toList_injective
    rw [htext, htext]
    exact redactChars_hides hp hswallows hb hs hs' hend hend'

/-- A key behind an assignment, up to a comma. -/
theorem redactInline_hides_iff_key :
    redactInline ("Bearer a, " ++ "sk-" ++ "one" ++ ", rest") =
      redactInline ("Bearer a, " ++ "sk-" ++ "two" ++ ", rest") := by
  have hsk : skKey ∈ prefixes := List.mem_cons_of_mem _ (List.mem_cons_of_mem _ List.mem_cons_self)
  have hkey : ¬ Swallows "Bearer a, ".toList skKey := by
    rintro (⟨hname, -⟩ | ⟨hname, -⟩)
    · exact absurd hname (by decide)
    · exact absurd hname (by decide)
  exact (redactInline_hides_iff skKey hsk "Bearer a, " ", rest" (by decide)).2.mpr hkey
    "one" "two" (by decide) (by decide) (by decide) (by decide)

/-- The first word swallows the second one, and the secret behind it stays. -/
theorem bearer_bearer_exposed :
    redactInline ("Bearer " ++ "Bearer " ++ "x" ++ "") ≠ redactInline ("Bearer " ++ "Bearer " ++ "y" ++ "") := by
  have hopen : EndsInSecret bearerUpper ("Bearer ").toList := by
    have htext : ("Bearer ").toList = bearerUpper.text ++ [] := (List.append_nil _).symm
    rw [EndsInSecret, htext, endsInBody_lead bearerUpper.text_ne_nil]
    rfl
  have hbounded : Bounded ("").toList := by decide
  obtain ⟨front, behind, hexposed⟩ := redactChars_exposes upper_mem (.inl ⟨rfl, hopen⟩) hbounded
  have hletters : ("x").toList = ['x'] ∧ ("y").toList = ['y'] := by decide
  intro hsame
  have hchars := congrArg String.toList hsame
  have htext := toList_redactInline_append bearerUpper "Bearer " ""
  change (redactInline ("Bearer " ++ bearerUpper.name ++ "x" ++ "")).toList =
    (redactInline ("Bearer " ++ bearerUpper.name ++ "y" ++ "")).toList at hchars
  rw [htext, htext, hletters.1, hletters.2, hexposed 'x' (by decide),
    hexposed 'y' (by decide)] at hchars
  simp at hchars

end Main

end OpenaiRs.Preview
