import Ikran.Httpish.Folding

/-!
# Looking up headers

The three ways in which a header is found: in the cache, by its name as the parser takes it from the line, and by the
characters that a line starts with. They agree on the cached headers only.
-/

namespace Httpish

open CStr

def cmpcHeaderSize : ℕ := 256

/-- `compact_hdr_cmp`, when it gives zero. -/
def compactHdrCmp (thisLine : CStr) (cHname : Option CStr) : Bool :=
  cHname.any fun c => strcaseEq thisLine (c.take (cmpcHeaderSize - 1))

/-- The text behind the colon and the spaces that follow it: here a tab is no space. -/
def spacedValue (line : CStr) : CStr := (line.dropWhile (· != ':')).tail.dropWhile (· = ' ')

/-- The loop of `httpish_msg_get_header_val`. -/
def httpishMsgGetHeaderVal (hname : CStr) (cHname : Option CStr) : List CStr → Option CStr
  | [] => none
  | line :: lines =>
    match headerNameVal line with
    | none => none
    | some name =>
      if strcaseEq name hname || compactHdrCmp name cHname then
        if spacedValue line = [] then none else some (spacedValue line)
      else httpishMsgGetHeaderVal hname cHname lines

/-- The value that `httpish_msg_get_num_particular_headers` takes from a line. -/
def particularVal (hname : CStr) (cHname : Option CStr) (line : CStr) : Option CStr :=
  let thisLine := line.dropWhile (· = ' ')
  if hname.length + 1 < thisLine.length ∧
      (strncaseEq thisLine hname hname.length || compactHdrCmp thisLine cHname) = true then
    if spacedValue thisLine = [] then none else some (spacedValue thisLine)
  else none

section

variable {α : Type} (val : α → Option CStr)

/-- The loop over a list with room for some values: each with the place where it is. -/
def collect : ℕ → ℕ → List α → List (ℕ × CStr)
  | _, _, [] => []
  | _, 0, _ => []
  | i, room + 1, x :: xs =>
    match val x with
    | none => collect (i + 1) (room + 1) xs
    | some v => (i, v) :: collect (i + 1) room xs

/-- The entries that the loop comes to while there is room. -/
def visited : ℕ → List α → List α
  | _, [] => []
  | 0, _ => []
  | room + 1, x :: xs => x :: visited (if (val x).isSome then room else room + 1) xs

end

/-- `httpish_msg_get_num_particular_headers`: the values, each with the number of its header in the list. -/
def httpishMsgGetNumParticularHeaders (hname : CStr) (cHname : Option CStr) (maxHeaders : ℕ) (headers : List CStr) :
    List (ℕ × CStr) :=
  collect (particularVal hname cHname) 0 maxHeaders headers

/-! ## Two readers of a list -/

section

variable {α : Type} {val val' : α → Option CStr}

theorem le_of_mem_collect {i room : ℕ} {xs : List α} {e : ℕ × CStr} (h : e ∈ collect val i room xs) : i ≤ e.1 := by
  induction xs generalizing i room with
  | nil => simp [collect] at h
  | cons x xs ih =>
    cases room with
    | zero => simp [collect] at h
    | succ room =>
      rw [collect] at h
      cases hval : val x with
      | none =>
        rw [hval] at h
        exact Nat.le_of_succ_le (ih h)
      | some v =>
        rw [hval] at h
        rcases List.mem_cons.mp h with rfl | h
        · exact le_refl _
        · exact Nat.le_of_succ_le (ih h)

theorem collect_map {β : Type} (val : α → Option CStr) (g : β → α) (i room : ℕ) (xs : List β) :
    collect val i room (xs.map g) = collect (fun x => val (g x)) i room xs := by
  induction xs generalizing i room with
  | nil => simp [collect]
  | cons x xs ih =>
    cases room with
    | zero => simp [collect]
    | succ room =>
      rw [List.map_cons, collect, collect]
      cases val (g x) with
      | none => exact ih (i + 1) (room + 1)
      | some v => exact congrArg ((i, v) :: ·) (ih (i + 1) room)

/-- **Two readers find the same exactly when** they agree on every entry that one of them comes to. -/
theorem collect_eq_iff (i room : ℕ) (xs : List α) :
    collect val i room xs = collect val' i room xs ↔ ∀ x ∈ visited val room xs, val x = val' x := by
  induction xs generalizing i room with
  | nil => simp [collect, visited]
  | cons x xs ih =>
    cases room with
    | zero => simp [collect, visited]
    | succ room =>
      have hlater : ∀ {val : α → Option CStr} {room : ℕ} {v : CStr}, (i, v) ∉ collect val (i + 1) room xs :=
        fun hmem => absurd (le_of_mem_collect hmem) (Nat.not_succ_le_self i)
      rw [collect, collect, visited, List.forall_mem_cons]
      cases hval : val x with
      | none =>
        cases hval' : val' x with
        | none =>
          simp only [Option.isSome_none, Bool.false_eq_true, if_false, true_and]
          exact ih (i + 1) (room + 1)
        | some v =>
          simp only [reduceCtorEq, false_and, iff_false]
          intro heq
          exact hlater (heq ▸ List.mem_cons_self)
      | some v =>
        cases hval' : val' x with
        | none =>
          simp only [reduceCtorEq, false_and, iff_false]
          intro heq
          exact hlater (heq ▸ List.mem_cons_self)
        | some v' =>
          simp only [Option.isSome_some, if_true, List.cons.injEq, Prod.mk.injEq, true_and, Option.some.injEq]
          exact and_congr_right fun _ => ih (i + 1) room

end

/-! ## Header lines -/

/-- A header line: its name, the blanks around the colon, and its value. -/
structure HeaderField where
  name : CStr
  before : CStr
  after : CStr
  value : CStr
  name_ne_nil : name ≠ []
  name_chars : ∀ c ∈ name, isNameChar c = true
  before_blank : ∀ c ∈ before, isBlank c = true
  after_blank : ∀ c ∈ after, isBlank c = true
  value_start : isBlank value.peek = false

namespace HeaderField

variable (f : HeaderField)

/-- The line written out. -/
def text : CStr := f.name ++ (f.before ++ ':' :: (f.after ++ f.value))

theorem eq_of_isBlank {c : Char} (h : isBlank c = true) : c = ' ' ∨ c = '\t' := by
  simpa [isBlank] using h

theorem exists_behind_name : ∃ c s, f.before ++ ':' :: (f.after ++ f.value) = c :: s ∧
    (c = ' ' ∨ c = '\t' ∨ c = ':') := by
  cases hbefore : f.before with
  | nil => exact ⟨_, _, rfl, .inr (.inr rfl)⟩
  | cons c s =>
    rcases eq_of_isBlank (f.before_blank c (hbefore ▸ List.mem_cons_self)) with rfl | rfl
    · exact ⟨_, _, rfl, .inl rfl⟩
    · exact ⟨_, _, rfl, .inr (.inl rfl)⟩

theorem takeWhile_text : f.text.takeWhile isNameChar = f.name := by
  obtain ⟨c, s, hbehind, hc⟩ := f.exists_behind_name
  rw [text, hbehind, List.takeWhile_append_of_pos f.name_chars]
  have hstop : isNameChar c = false := by rcases hc with rfl | rfl | rfl <;> rfl
  rw [List.takeWhile_cons_of_neg (by rw [hstop]; decide), List.append_nil]

theorem exists_text : ∃ c s, f.text = c :: s ∧ isNameChar c = true := by
  obtain ⟨c, s, hname⟩ := List.exists_cons_of_ne_nil f.name_ne_nil
  refine ⟨c, s ++ (f.before ++ ':' :: (f.after ++ f.value)), ?_, f.name_chars c (hname ▸ List.mem_cons_self)⟩
  rw [text, hname, List.cons_append]

theorem not_isBlank_of_isNameChar {c : Char} (hc : isNameChar c = true) : isBlank c = false ∧ c ≠ ' ' := by
  refine ⟨?_, ?_⟩
  · by_contra hno
    rcases eq_of_isBlank (Bool.not_eq_false _ ▸ hno) with rfl | rfl <;> exact absurd hc (by decide)
  · rintro rfl
    exact absurd hc (by decide)

theorem headerNameVal_text : headerNameVal f.text = if f.name.length < headerNameSize then some f.name else none := by
  obtain ⟨c, s, htext, hc⟩ := f.exists_text
  have hstart : f.text.dropWhile isBlank = f.text := by
    rw [htext]
    exact List.dropWhile_cons_of_neg (by rw [(not_isBlank_of_isNameChar hc).1]; decide)
  rw [headerNameVal, hstart, f.takeWhile_text]
  by_cases hlength : f.name.length < headerNameSize
  · have hrest : f.text.drop f.name.length = f.before ++ ':' :: (f.after ++ f.value) := by
      rw [text, List.drop_left]
    have hcolon : (f.before ++ ':' :: (f.after ++ f.value)).dropWhile isBlank = ':' :: (f.after ++ f.value) := by
      rw [List.dropWhile_append_of_pos f.before_blank]
      exact List.dropWhile_cons_of_neg (by decide)
    rw [List.take_of_length_le (Nat.le_of_lt hlength), hrest, hcolon, if_pos hlength, if_pos ⟨hlength, rfl⟩]
  · have htake : (f.name.take headerNameSize).length = headerNameSize := by
      rw [List.length_take]
      omega
    rw [htake, if_neg hlength, if_neg fun h => lt_irrefl _ h.1]

theorem tail_dropWhile_text : (f.text.dropWhile (· != ':')).tail = f.after ++ f.value := by
  have hname : ∀ c ∈ f.name, (c != ':') = true := fun c hc => by
    have := f.name_chars c hc
    simp only [isNameChar, Bool.and_eq_true] at this
    exact this.2
  have hbefore : ∀ c ∈ f.before, (c != ':') = true := fun c hc => by
    rcases eq_of_isBlank (f.before_blank c hc) with rfl | rfl <;> rfl
  rw [text, List.dropWhile_append_of_pos hname, List.dropWhile_append_of_pos hbefore]
  rfl

theorem headerValue_text : headerValue f.text = f.value := by
  rw [headerValue, f.tail_dropWhile_text, List.dropWhile_append_of_pos f.after_blank]
  cases hvalue : f.value with
  | nil => rfl
  | cons c s =>
    have hstart := f.value_start
    rw [hvalue, peek_cons] at hstart
    exact List.dropWhile_cons_of_neg (by rw [hstart]; decide)

/-- The value that the lookups in the list find. -/
def spaced : CStr := (f.after ++ f.value).dropWhile (· = ' ')

theorem spacedValue_text : spacedValue f.text = f.spaced := by
  rw [spacedValue, f.tail_dropWhile_text, spaced]

theorem spaced_of_not_mem (h : '\t' ∉ f.after) : f.spaced = f.value := by
  have hspaces : ∀ c ∈ f.after, decide (c = ' ') = true := by
    intro c hc
    rcases eq_of_isBlank (f.after_blank c hc) with rfl | rfl
    · rfl
    · exact absurd hc h
  rw [spaced, List.dropWhile_append_of_pos hspaces]
  cases hvalue : f.value with
  | nil => rfl
  | cons c s =>
    have hstart := f.value_start
    rw [hvalue, peek_cons] at hstart
    refine List.dropWhile_cons_of_neg fun hspace => ?_
    obtain rfl : c = ' ' := of_decide_eq_true hspace
    exact absurd hstart (by decide)

theorem peek_spaced_of_mem (h : '\t' ∈ f.after) : peek f.spaced = '\t' := by
  have hafter := f.after_blank
  rw [spaced]
  generalize f.after = after at h hafter
  induction after with
  | nil => cases h
  | cons c after ih =>
    rcases eq_of_isBlank (hafter c List.mem_cons_self) with rfl | rfl
    · rw [List.cons_append, List.dropWhile_cons_of_pos rfl]
      refine ih ?_ fun d hd => hafter d (List.mem_cons_of_mem _ hd)
      rcases List.mem_cons.mp h with hno | h
      · exact absurd hno (by decide)
      · exact h
    · rfl

theorem spaced_eq_value_iff : f.spaced = f.value ↔ '\t' ∉ f.after := by
  refine ⟨fun h hmem => ?_, f.spaced_of_not_mem⟩
  have hpeek := f.peek_spaced_of_mem hmem
  have hstart := f.value_start
  rw [← h, hpeek] at hstart
  exact absurd hstart (by decide)

end HeaderField

/-! ## Cached headers -/

def CachedHeader.names (h : CachedHeader) : List CStr := (sipCachedHeaders h).1 :: (sipCachedHeaders h).2.toList

theorem CachedHeader.matches_iff (h : CachedHeader) (name : CStr) :
    h.matches name = true ↔ ∃ s ∈ h.names, name.map Char.toUpper = s.map Char.toUpper := by
  rw [CachedHeader.matches, CachedHeader.names]
  cases (sipCachedHeaders h).2 with
  | none => simp [strcaseEq]
  | some compact => simp [strcaseEq]

theorem names_distinct : (∀ h ∈ cachedHeaders, ∀ h' ∈ cachedHeaders, ∀ s ∈ h.names, ∀ s' ∈ h'.names,
    s.map Char.toUpper = s'.map Char.toUpper → h = h') ∧ ∀ h ∈ cachedHeaders, ∀ s ∈ h.names, s.length < 20 := by
  decide +kernel

theorem mem_cachedHeaders (h : CachedHeader) : h ∈ cachedHeaders := by cases h <;> decide

theorem CachedHeader.eq_of_matches {h h' : CachedHeader} {name : CStr} (hm : h.matches name = true)
    (hm' : h'.matches name = true) : h = h' := by
  obtain ⟨s, hs, heq⟩ := (h.matches_iff name).mp hm
  obtain ⟨s', hs', heq'⟩ := (h'.matches_iff name).mp hm'
  exact names_distinct.1 h (mem_cachedHeaders h) h' (mem_cachedHeaders h') s hs s' hs' (heq.symm.trans heq')

theorem CachedHeader.length_lt_of_matches {h : CachedHeader} {name : CStr} (hm : h.matches name = true) :
    name.length < headerNameSize := by
  obtain ⟨s, hs, heq⟩ := (h.matches_iff name).mp hm
  have hlength := congrArg List.length heq
  rw [List.length_map, List.length_map] at hlength
  have hshort := names_distinct.2 h (mem_cachedHeaders h) s hs
  have hsize : headerNameSize = 256 := rfl
  omega

namespace HeaderField

theorem cachedHeader_text_iff (f : HeaderField) (h : CachedHeader) :
    cachedHeader f.text = some h ↔ h.matches f.name = true := by
  rw [cachedHeader, f.headerNameVal_text]
  constructor
  · intro hcached
    split_ifs at hcached
    · rw [Option.bind_some] at hcached
      exact List.find?_some (p := fun h : CachedHeader => h.matches f.name) hcached
    · cases hcached
  · intro hm
    rw [if_pos (CachedHeader.length_lt_of_matches hm), Option.bind_some]
    cases hfind : cachedHeaders.find? fun h => h.matches f.name with
    | none => exact absurd hm (List.find?_eq_none.mp hfind h (mem_cachedHeaders h))
    | some h' =>
      have hm' := List.find?_some (p := fun h : CachedHeader => h.matches f.name) hfind
      rw [CachedHeader.eq_of_matches hm' hm]

theorem cachedHeader_text_eq_none_iff (f : HeaderField) :
    cachedHeader f.text = none ↔ ∀ h : CachedHeader, h.matches f.name = false := by
  constructor
  · intro hnone h
    by_contra hm
    rw [(f.cachedHeader_text_iff h).mpr (Bool.not_eq_false _ ▸ hm)] at hnone
    cases hnone
  · intro hno
    by_contra hsome
    obtain ⟨h, hh⟩ := Option.ne_none_iff_exists'.mp hsome
    have hm := (f.cachedHeader_text_iff h).mp hh
    rw [hno h] at hm
    cases hm

end HeaderField

/-- The values of a cached header in order of appearance, without the empty ones. -/
def CachedHeader.values (h : CachedHeader) (fields : List HeaderField) : List CStr :=
  ((fields.filter fun f => h.matches f.name).map HeaderField.value).filter (· ≠ [])

theorem headerValues_text (h : CachedHeader) (fields : List HeaderField) :
    headerValues h (fields.map HeaderField.text) = h.values fields := by
  have hsame : ((fun l => decide (cachedHeader l = some h)) ∘ HeaderField.text) = fun f => h.matches f.name := by
    funext f
    rw [Function.comp_apply, Bool.eq_iff_iff, decide_eq_true_eq]
    exact f.cachedHeader_text_iff h
  have hvalues : headerValue ∘ HeaderField.text = HeaderField.value := funext HeaderField.headerValue_text
  rw [headerValues, CachedHeader.values, @List.filter_map _ _ HeaderField.text, List.map_map, hsame, hvalues]

/-! ## Other headers -/

/-- A header that is not cached, with its compact form if it has one. -/
structure OtherHeader where
  name : CStr
  compact : Option CStr
  name_chars : ∀ c ∈ name, isNameChar c = true
  compact_chars : ∀ form ∈ compact, ∀ c ∈ form, isNameChar c = true
  compact_length : ∀ form ∈ compact, form.length < cmpcHeaderSize
  name_other : ∀ h : CachedHeader, h.matches name = false
  compact_other : ∀ form ∈ compact, ∀ h : CachedHeader, h.matches form = false

namespace OtherHeader

variable (hdr : OtherHeader)

/-- A line is one of the header: it has its name or its compact form, up to case. -/
def has (f : HeaderField) : Bool := strcaseEq f.name hdr.name || hdr.compact.any fun form => strcaseEq f.name form

/-- The name of a line starts with that of the header, up to case. -/
def starts (f : HeaderField) : Bool := strcaseEq (f.name.take hdr.name.length) hdr.name

/-- The values of the header in order of appearance, without the empty ones. -/
def values (fields : List HeaderField) : List CStr := ((fields.filter hdr.has).map HeaderField.value).filter (· ≠ [])

/-- The value of a line, when it is one of the header. -/
def valueOf (f : HeaderField) : Option CStr := if hdr.has f ∧ f.value ≠ [] then some f.value else none

theorem matches_congr {name name' : CStr} (h : strcaseEq name name' = true) (cached : CachedHeader) :
    cached.matches name = cached.matches name' := by
  rw [strcaseEq, beq_iff_eq] at h
  rw [Bool.eq_iff_iff, CachedHeader.matches_iff, CachedHeader.matches_iff, h]

theorem matches_of_has {f : HeaderField} (h : hdr.has f = true) (cached : CachedHeader) :
    cached.matches f.name = false := by
  rw [has, Bool.or_eq_true] at h
  rcases h with h | h
  · rw [matches_congr h]
    exact hdr.name_other cached
  · cases hcompact : hdr.compact with
    | none =>
      rw [hcompact] at h
      cases h
    | some form =>
      rw [hcompact, Option.any_some] at h
      rw [matches_congr h]
      exact hdr.compact_other form hcompact cached

theorem compactHdrCmp_eq (thisLine : CStr) :
    compactHdrCmp thisLine hdr.compact = hdr.compact.any fun form => strcaseEq thisLine form := by
  cases hcompact : hdr.compact with
  | none => rfl
  | some form =>
    have hlength := hdr.compact_length form hcompact
    rw [compactHdrCmp, Option.any_some, Option.any_some, List.take_of_length_le (Nat.le_sub_one_of_lt hlength)]

theorem eq_of_toUpper_eq {c d : Char} (h : c.toUpper = d) (hd : d.toNat < 65) : c = d := by
  rcases toUpper_cases c with heq | ⟨hnum, hge, -⟩
  · exact heq ▸ h
  · rw [h] at hnum
    omega

theorem compactHdrCmp_text (f : HeaderField) : compactHdrCmp f.text hdr.compact = false := by
  rw [hdr.compactHdrCmp_eq]
  cases hcompact : hdr.compact with
  | none => rfl
  | some form =>
    rw [Option.any_some, ← Bool.not_eq_true, strcaseEq, beq_iff_eq]
    intro heq
    have hcolon : ':' ∈ form.map Char.toUpper := by
      rw [← heq, HeaderField.text]
      exact List.mem_map.mpr ⟨':', by simp, rfl⟩
    obtain ⟨c, hc, hupper⟩ := List.mem_map.mp hcolon
    have hchar := hdr.compact_chars form hcompact c hc
    rw [eq_of_toUpper_eq hupper (by decide)] at hchar
    exact absurd hchar (by decide)

theorem strncaseEq_text (f : HeaderField) : strncaseEq f.text hdr.name hdr.name.length = hdr.starts f := by
  have hnul : nul ∉ hdr.name := fun hmem => absurd (hdr.name_chars nul hmem) (by decide)
  rw [Bool.eq_iff_iff, strncaseEq_iff hnul, starts, strcaseEq, beq_iff_eq]
  rcases Nat.lt_or_ge f.name.length hdr.name.length with hlt | hge
  · -- the blank or the colon behind the name is no character of a name
    have htake : f.name.take hdr.name.length = f.name := List.take_of_length_le (Nat.le_of_lt hlt)
    refine iff_of_false (fun heq => ?_) fun heq => ?_
    · obtain ⟨c, s, hbehind, hc⟩ := f.exists_behind_name
      have hget := congrArg (fun l : CStr => l[f.name.length]?) heq
      simp only [List.getElem?_map, HeaderField.text, hbehind] at hget
      rw [List.getElem?_take_of_lt hlt, List.getElem?_append_right le_rfl, Nat.sub_self,
        List.getElem?_eq_getElem hlt, List.getElem?_cons_zero, Option.map_some, Option.map_some,
        Option.some.injEq] at hget
      have hchar := hdr.name_chars _ (List.getElem_mem hlt)
      have hsame : hdr.name[f.name.length] = c := by
        have hupper : c.toUpper = c := by rcases hc with rfl | rfl | rfl <;> rfl
        rw [hupper] at hget
        refine eq_of_toUpper_eq hget.symm ?_
        rcases hc with rfl | rfl | rfl <;> decide
      rw [hsame] at hchar
      rcases hc with rfl | rfl | rfl <;> exact absurd hchar (by decide)
    · rw [htake] at heq
      have hlength := congrArg List.length heq
      rw [List.length_map, List.length_map] at hlength
      omega
  · rw [HeaderField.text, List.take_append_of_le_length hge]

/-- What `httpish_msg_get_num_particular_headers` takes from a line: the compact form is never found, and a longer
name is. -/
theorem particularVal_text (f : HeaderField) :
    particularVal hdr.name hdr.compact f.text = if hdr.starts f ∧ f.spaced ≠ [] then some f.spaced else none := by
  have hstart : f.text.dropWhile (· = ' ') = f.text := by
    obtain ⟨c, s, htext, hc⟩ := f.exists_text
    rw [htext]
    exact List.dropWhile_cons_of_neg fun h => (HeaderField.not_isBlank_of_isNameChar hc).2 (of_decide_eq_true h)
  have hlonger : hdr.starts f = true → f.spaced ≠ [] → hdr.name.length + 1 < f.text.length := by
    intro hstarts hspaced
    have hname : hdr.name.length ≤ f.name.length := by
      rw [starts, strcaseEq, beq_iff_eq] at hstarts
      have := congrArg List.length hstarts
      rw [List.length_map, List.length_map, List.length_take] at this
      omega
    have hbehind : 0 < (f.after ++ f.value).length := by
      rw [List.length_pos_iff]
      intro hnil
      exact hspaced (by rw [HeaderField.spaced, hnil, List.dropWhile_nil])
    simp only [HeaderField.text, List.length_append, List.length_cons] at hbehind ⊢
    omega
  simp only [particularVal, hstart, hdr.strncaseEq_text, hdr.compactHdrCmp_text, Bool.or_false, f.spacedValue_text]
  by_cases hstarts : hdr.starts f = true
  · by_cases hspaced : f.spaced = []
    · simp [hspaced]
    · rw [if_pos ⟨hlonger hstarts hspaced, hstarts⟩, if_neg hspaced, if_pos ⟨hstarts, hspaced⟩]
  · rw [if_neg fun h => hstarts h.2, if_neg fun h => hstarts h.1]

/-- A line is taken for what it is: one of the header starts with its name, or it has no value, and no tab is behind
its colon; another one that starts with the name has no value. -/
structure TakenAsIs (f : HeaderField) : Prop where
  longer : hdr.starts f = true → hdr.has f = false → f.spaced = []
  compact : hdr.has f = true → hdr.starts f = false → f.value = []
  untabbed : hdr.has f = true → hdr.starts f = true → '\t' ∉ f.after

/-- A line gives the value of the header exactly when it is taken for what it is. -/
theorem particularVal_eq_iff (f : HeaderField) :
    particularVal hdr.name hdr.compact f.text = hdr.valueOf f ↔ hdr.TakenAsIs f := by
  rw [hdr.particularVal_text, valueOf]
  cases hstarts : hdr.starts f <;> cases hhas : hdr.has f
  · simp only [Bool.false_eq_true, false_and, if_false, true_iff]
    exact ⟨by simp [hstarts], by simp [hhas], by simp [hhas]⟩
  · -- a compact form
    simp only [Bool.false_eq_true, false_and, if_false, true_and]
    constructor
    · intro h
      refine ⟨by simp [hstarts], fun _ _ => ?_, by simp [hstarts]⟩
      by_contra hvalue
      rw [if_pos hvalue] at h
      cases h
    · intro h
      rw [if_neg (not_not.mpr (h.compact hhas hstarts))]
  · -- a longer name
    simp only [Bool.false_eq_true, false_and, if_false, true_and]
    constructor
    · intro h
      refine ⟨fun _ _ => ?_, by simp [hhas], by simp [hhas]⟩
      by_contra hspaced
      rw [if_pos hspaced] at h
      cases h
    · intro h
      rw [if_neg (not_not.mpr (h.longer hstarts hhas))]
  · -- the name of the header
    simp only [true_and]
    constructor
    · intro h
      refine ⟨by simp [hhas], by simp [hstarts], fun _ _ htab => ?_⟩
      have hpeek := f.peek_spaced_of_mem htab
      have hspaced : f.spaced ≠ [] := by
        intro hnil
        rw [hnil] at hpeek
        exact absurd hpeek (by decide)
      rw [if_pos hspaced] at h
      split_ifs at h
      exact f.spaced_eq_value_iff.mp (Option.some.inj h) htab
    · intro h
      rw [f.spaced_of_not_mem (h.untabbed hhas hstarts)]

/-- The first line of the header can be read: no line with a name that is too long is in front of it, its value is not
empty unless all are, and no tab is behind its colon. -/
def FirstReadable (fields : List HeaderField) : Prop :=
  ∀ f, (fields.find? fun f => decide (headerNameSize ≤ f.name.length) || hdr.has f) = some f →
    (headerNameSize ≤ f.name.length → hdr.values fields = []) ∧
      (f.name.length < headerNameSize → '\t' ∉ f.after ∧ (f.value = [] → hdr.values fields = []))

theorem getHeaderVal_text (fields : List HeaderField) :
    httpishMsgGetHeaderVal hdr.name hdr.compact (fields.map HeaderField.text) =
      (fields.find? fun f => decide (headerNameSize ≤ f.name.length) || hdr.has f).bind fun f =>
        if headerNameSize ≤ f.name.length ∨ f.spaced = [] then none else some f.spaced := by
  induction fields with
  | nil => rfl
  | cons f fields ih =>
    rw [List.map_cons, httpishMsgGetHeaderVal, f.headerNameVal_text]
    by_cases hlength : headerNameSize ≤ f.name.length
    · rw [if_neg (Nat.not_lt.mpr hlength), List.find?_cons_of_pos (by simp [hlength]), Option.bind_some]
      exact (if_pos (Or.inl hlength)).symm
    · simp only [if_pos (Nat.lt_of_not_le hlength), hdr.compactHdrCmp_eq, f.spacedValue_text, ih]
      by_cases hhas : hdr.has f = true
      · rw [List.find?_cons_of_pos (by simp [hhas]), Option.bind_some]
        simp only [has] at hhas
        simp only [hhas, if_true, hlength, false_or]
      · rw [List.find?_cons_of_neg (by simp [hhas, hlength])]
        simp only [has] at hhas
        simp only [hhas, Bool.false_eq_true, if_false]

theorem values_eq_nil {fields : List HeaderField} (h : ∀ f ∈ fields, hdr.has f = false) : hdr.values fields = [] := by
  have hnone : fields.filter hdr.has = [] := List.filter_eq_nil_iff.mpr fun f hf => by rw [h f hf]; decide
  rw [values, hnone]
  rfl

theorem values_append (front back : List HeaderField) :
    hdr.values (front ++ back) = hdr.values front ++ hdr.values back := by
  rw [values, List.filter_append, List.map_append, List.filter_append]
  rfl

theorem exists_of_mem_values {fields : List HeaderField} {v : CStr} (h : v ∈ hdr.values fields) :
    ∃ f ∈ fields, f.value = v := by
  rw [values, List.mem_filter, List.mem_map] at h
  obtain ⟨⟨f, hf, hv⟩, -⟩ := h
  exact ⟨f, (List.mem_filter.mp hf).1, hv⟩

/-- **The lookup by name gives the first value exactly when** the first line of the header can be read. -/
theorem getHeaderVal_iff (fields : List HeaderField) :
    httpishMsgGetHeaderVal hdr.name hdr.compact (fields.map HeaderField.text) = (hdr.values fields).head? ↔
      hdr.FirstReadable fields := by
  rw [hdr.getHeaderVal_text, FirstReadable]
  cases hfind : fields.find? fun f => decide (headerNameSize ≤ f.name.length) || hdr.has f with
  | none =>
    have hnone : hdr.values fields = [] := by
      rw [hdr.values_eq_nil]
      intro f hf
      have := List.find?_eq_none.mp hfind f hf
      simp only [Bool.or_eq_true, not_or] at this
      exact Bool.not_eq_true _ ▸ this.2
    rw [hnone]
    exact iff_of_true rfl nofun
  | some f =>
    obtain ⟨hf, front, back, rfl, hfront⟩ := List.find?_eq_some_iff_append.mp hfind
    have hvalues : hdr.values (front ++ f :: back) = hdr.values (f :: back) := by
      have hnone : hdr.values front = [] := hdr.values_eq_nil fun g hg => by
        have := hfront g hg
        simp only [Bool.not_eq_true', Bool.or_eq_false_iff] at this
        exact this.2
      rw [hdr.values_append, hnone, List.nil_append]
    simp only [Option.bind_some, Option.some.injEq, forall_eq']
    by_cases hlength : headerNameSize ≤ f.name.length
    · -- the name is too long
      rw [if_pos (.inl hlength)]
      constructor
      · intro h
        exact ⟨fun _ => List.head?_eq_none_iff.mp h.symm, fun hno => absurd hno (Nat.not_lt.mpr hlength)⟩
      · intro h
        rw [h.1 hlength, List.head?_nil]
    · have hhas : hdr.has f = true := by simpa [hlength] using hf
      simp only [hlength, false_or, false_imp_iff, true_and, Nat.lt_of_not_le hlength, true_imp_iff]
      by_cases htab : '\t' ∈ f.after
      · -- the tab is taken for the start of a value
        have hpeek := f.peek_spaced_of_mem htab
        have hspaced : f.spaced ≠ [] := by
          intro hnil
          rw [hnil] at hpeek
          exact absurd hpeek (by decide)
        rw [if_neg hspaced]
        refine iff_of_false (fun h => ?_) fun h => h.1 htab
        have hmem := List.mem_of_mem_head? h.symm
        obtain ⟨g, -, hg⟩ := hdr.exists_of_mem_values hmem
        have hstart := g.value_start
        rw [hg, hpeek] at hstart
        exact absurd hstart (by decide)
      · rw [f.spaced_of_not_mem htab, and_iff_right htab, hvalues]
        by_cases hvalue : f.value = []
        · rw [if_pos hvalue]
          exact ⟨fun h _ => List.head?_eq_none_iff.mp h.symm, fun h => by rw [h hvalue, List.head?_nil]⟩
        · have hfirst : hdr.values (f :: back) = f.value :: hdr.values back := by
            rw [values, List.filter_cons_of_pos hhas, List.map_cons, List.filter_cons_of_pos (by simpa using hvalue)]
            rfl
          rw [if_neg hvalue, hfirst, List.head?_cons]
          exact iff_of_true rfl fun hno => absurd hno hvalue

end OtherHeader

/-! ## Messages -/

/-- A message of header lines, each of them folded anywhere. -/
structure FieldMessage where
  message : FoldedMessage
  fields : List HeaderField
  lines_eq : message.lines.map FoldedLine.text = fields.map HeaderField.text

/-- The header lines that are not cached. -/
def otherFields (fields : List HeaderField) : List HeaderField :=
  fields.filter fun f => cachedHeaders.all fun h => !h.matches f.name

def FieldMessage.parsed (m : FieldMessage) : HttpishMsg := (parse m.message.text).2.1

/-- Every lookup finds the values of a header in order of appearance: in the cache joined by commas, by name the first,
and in the list all that there is room for, each at its place among the headers that are not cached. -/
structure LookupDefined (m : FieldMessage) (hdr : OtherHeader) (maxHeaders : ℕ) : Prop where
  cached : ∀ h, m.parsed.cachedHeaderVal h = joinValues (h.values m.fields)
  first : httpishMsgGetHeaderVal hdr.name hdr.compact m.parsed.headers = (hdr.values m.fields).head?
  all : httpishMsgGetNumParticularHeaders hdr.name hdr.compact maxHeaders m.parsed.headers =
    collect hdr.valueOf 0 maxHeaders (otherFields m.fields)

theorem FieldMessage.headers_parsed (m : FieldMessage) :
    m.parsed.headers = (otherFields m.fields).map HeaderField.text := by
  have hgiven := (headersGiven_parse_folded m.message).headers
  rw [m.lines_eq] at hgiven
  have hsame : ((fun l => decide (cachedHeader l = none)) ∘ HeaderField.text) =
      fun f => cachedHeaders.all fun h => !h.matches f.name := by
    funext f
    rw [Function.comp_apply, Bool.eq_iff_iff, decide_eq_true_eq, f.cachedHeader_text_eq_none_iff]
    simp [mem_cachedHeaders]
  rw [FieldMessage.parsed, hgiven, otherFields, List.filter_map, hsame]

/-- **The cached value of every header is what it should be.** -/
theorem FieldMessage.cached_parsed (m : FieldMessage) (h : CachedHeader) :
    m.parsed.cachedHeaderVal h = joinValues (h.values m.fields) := by
  have hgiven := (headersGiven_parse_folded m.message).cached h
  rw [m.lines_eq, headerValues_text] at hgiven
  exact hgiven

theorem OtherHeader.values_otherFields (hdr : OtherHeader) (fields : List HeaderField) :
    hdr.values (otherFields fields) = hdr.values fields := by
  rw [values, values, otherFields, List.filter_filter]
  refine congrArg (fun l => (l.map HeaderField.value).filter (· ≠ [])) (List.filter_congr fun f _ => ?_)
  cases hhas : hdr.has f with
  | false => rw [Bool.false_and]
  | true => simp [hdr.matches_of_has hhas]

/-- **When header lookup is well defined.** The cached values always are. The lookup by name finds the first value when
the first line of the header can be read; the lookup of all values finds them when every line that it comes to is taken
for what it is. -/
theorem lookupDefined_iff (m : FieldMessage) (hdr : OtherHeader) (maxHeaders : ℕ) :
    LookupDefined m hdr maxHeaders ↔ hdr.FirstReadable (otherFields m.fields) ∧
      ∀ f ∈ visited (fun f => particularVal hdr.name hdr.compact f.text) maxHeaders (otherFields m.fields),
        hdr.TakenAsIs f := by
  rw [← hdr.getHeaderVal_iff, hdr.values_otherFields]
  simp only [← hdr.particularVal_eq_iff]
  rw [← collect_eq_iff 0, ← collect_map]
  constructor
  · intro h
    have hfirst := h.first
    have hvals := h.all
    rw [m.headers_parsed] at hfirst hvals
    exact ⟨hfirst, hvals⟩
  · rintro ⟨hfirst, hvals⟩
    refine ⟨m.cached_parsed, ?_, ?_⟩
    · rw [m.headers_parsed]
      exact hfirst
    · rw [m.headers_parsed]
      exact hvals

/-- The header `Refer-To`, whose compact form is `r`. -/
def referTo : OtherHeader where
  name := "Refer-To"
  compact := some ['r']
  name_chars := by decide
  compact_chars := by decide
  compact_length := by decide
  name_other := by intro h; cases h <;> decide
  compact_other := by
    intro form hform h
    obtain rfl := Option.some.inj hform
    cases h <;> decide

/-- The line `r: x`. -/
def compactField : HeaderField where
  name := ['r']
  before := []
  after := [' ']
  value := ['x']
  name_ne_nil := by decide
  name_chars := by decide
  before_blank := nofun
  after_blank := by decide
  value_start := by decide

/-- A message with the compact form of a header. -/
def compactMessage : FieldMessage where
  message :=
    { start := "REFER"
      lines := [⟨compactField.text, [], ⟨by decide, by decide, by decide⟩, nofun, nofun⟩]
      body := []
      start_ne_nil := by decide
      start_plain := by decide
      body_unfolded := by decide }
  fields := [compactField]
  lines_eq := by decide

/-- The line `r: x` is not among the values of the header. -/
theorem not_lookupDefined : ¬ ∀ (m : FieldMessage) (hdr : OtherHeader) (maxHeaders : ℕ),
    LookupDefined m hdr maxHeaders := by
  intro h
  have hall := (h compactMessage referTo 1).all
  rw [FieldMessage.headers_parsed] at hall
  exact absurd hall (by decide)

end Httpish
