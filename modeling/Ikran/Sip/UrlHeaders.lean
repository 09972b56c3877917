import Ikran.Sip.Url

/-!
# The headers of a URL

`url_add_headers_to_list` counts the ampersands of the header part, allocates an array with an entry for each field,
and fills it from the pieces of a tokenizer, which skips empty fields.
-/

namespace Sip

open CStr

/-- `num_headers` and `headerp` of `sipUrl_t`. An entry is missing as long as it is not assigned. -/
structure UrlHeaders where
  numHeaders : ℤ
  headerp : List (Option (CStr × CStr))
  deriving DecidableEq

/-- `num_head` behind the first loop: a signed character. -/
def numHead (urlStrp : CStr) : ℤ := ((urlStrp.count '&' + 1 : ℕ) : ℤ).bmod (2 ^ 8)

/-- The pieces of `cpr_strtok`. -/
def headerPieces (urlStrp : CStr) : List CStr :=
  match strtok "&?" urlStrp with
  | none => []
  | some (piece, rest) => piece :: strtokAll "&" rest

/-- The second loop, over the pieces and the entries that are left. -/
def fillHeaders : List CStr → List (Option (CStr × CStr)) → Except ParseErr (List (Option (CStr × CStr)))
  | [], entries => .ok entries
  | _ :: _, [] => .ok []
  | piece :: pieces, _ :: entries => do
    let header ← splitHeader piece
    let headers ← fillHeaders pieces entries
    .ok (some header :: headers)

/-- `url_add_headers_to_list`, for a text that is present. -/
def urlAddHeaders (urlStrp : CStr) : Except ParseErr UrlHeaders := do
  if numHead urlStrp < 0 then .error .noMemory
  else
    let headerp ← fillHeaders (headerPieces urlStrp) (List.replicate (numHead urlStrp).toNat none)
    .ok { numHeaders := numHead urlStrp, headerp }

/-- The attribute and the value of a field, at its first equal sign. -/
def headerPair (field : CStr) : CStr × CStr := (field.takeWhile (· ≠ '='), (field.dropWhile (· ≠ '=')).tail)

/-- The fields between the ampersands. -/
def urlFields (urlStrp : CStr) : List CStr := urlStrp.splitOnP (· ∈ ("&" : CStr))

/-- The fields that are an attribute with a value. -/
def headerFields (urlStrp : CStr) : List CStr := (urlFields urlStrp).filter ('=' ∈ ·)

/-- A header part that is refused: the number of its fields is negative as a character, or a piece that has an entry
is no attribute with a value. -/
def HeadersRefused (urlStrp : CStr) : Prop :=
  numHead urlStrp < 0 ∨ ∃ piece ∈ (headerPieces urlStrp).take (numHead urlStrp).toNat, '=' ∉ piece

/-- Each field has its entry, and there are no others. -/
def HeadersComplete (urlStrp : CStr) : Prop :=
  ∀ headers, urlAddHeaders urlStrp = .ok headers →
    headers.numHeaders = (headerFields urlStrp).length ∧
      headers.headerp = (headerFields urlStrp).map fun field => some (headerPair field)

theorem fillHeaders_eq (pieces : List CStr) (n : ℕ) : fillHeaders pieces (List.replicate n none) =
      if ∀ piece ∈ pieces.take n, '=' ∈ piece then
        .ok ((pieces.take n).map (fun piece => some (headerPair piece)) ++ List.replicate (n - pieces.length) none)
      else .error .syntaxErr := by
  induction pieces generalizing n with
  | nil => simp [fillHeaders]
  | cons piece pieces ih =>
    cases n with
    | zero => simp [fillHeaders]
    | succ n =>
      rw [List.replicate_succ, fillHeaders, ih, List.take_succ_cons, splitHeader]
      have hcons := List.forall_mem_cons (p := fun field : CStr => '=' ∈ field) (a := piece) (l := pieces.take n)
      by_cases hpiece : '=' ∈ piece
      · by_cases hpieces : ∀ piece ∈ pieces.take n, '=' ∈ piece
        · rw [if_pos hpiece, if_pos hpieces, if_pos (hcons.mpr ⟨hpiece, hpieces⟩), List.length_cons,
            Nat.add_sub_add_right]
          rfl
        · rw [if_pos hpiece, if_neg hpieces, if_neg fun h => hpieces (hcons.mp h).2]
          rfl
      · rw [if_neg hpiece, if_neg fun h => hpiece (hcons.mp h).1]
        rfl

theorem urlAddHeaders_eq_ok_iff {urlStrp : CStr} {headers : UrlHeaders} :
    urlAddHeaders urlStrp = .ok headers ↔ ¬HeadersRefused urlStrp ∧ headers = ⟨numHead urlStrp,
        ((headerPieces urlStrp).take (numHead urlStrp).toNat).map (fun piece => some (headerPair piece)) ++
          List.replicate ((numHead urlStrp).toNat - (headerPieces urlStrp).length) none⟩ := by
  rw [urlAddHeaders, HeadersRefused, fillHeaders_eq]
  by_cases hneg : numHead urlStrp < 0
  · rw [if_pos hneg]
    exact iff_of_false nofun fun h => h.1 (.inl hneg)
  · rw [if_neg hneg, or_iff_right hneg]
    push Not
    by_cases hpieces : ∀ piece ∈ (headerPieces urlStrp).take (numHead urlStrp).toNat, '=' ∈ piece
    · rw [if_pos hpieces, and_iff_right hpieces]
      exact ⟨fun h => (Except.ok.inj h).symm, fun h => congrArg Except.ok h.symm⟩
    · rw [if_neg hpieces]
      exact iff_of_false nofun fun h => hpieces h.1

/-! ## Pieces and fields -/

theorem urlFields_ampersand (s : CStr) : urlFields ('&' :: s) = [] :: urlFields s := by
  rw [urlFields, List.splitOnP_cons_eq_if_modifyHead, if_pos (by decide)]
  rfl

theorem urlFields_cons {c : Char} (hc : c ≠ '&') (s : CStr) :
    urlFields (c :: s) = (urlFields s).modifyHead (c :: ·) := by
  have hno : ¬decide (c ∈ ("&" : CStr)) = true := by simpa using hc
  rw [urlFields, List.splitOnP_cons_eq_if_modifyHead, if_neg hno]
  rfl

theorem exists_urlFields (s : CStr) : ∃ field fields, urlFields s = field :: fields :=
  List.exists_cons_of_ne_nil (List.splitOnP_ne_nil _ s)

theorem urlFields_append {t : CStr} (ht : '&' ∉ t) (s : CStr) :
    urlFields (t ++ s) = (urlFields s).modifyHead (t ++ ·) := by
  induction t with
  | nil => exact (congrFun List.modifyHead_id _).symm
  | cons c t ih =>
    rw [List.mem_cons, not_or] at ht
    rw [List.cons_append, urlFields_cons (Ne.symm ht.1), ih ht.2, List.modifyHead_modifyHead]
    rfl

theorem exists_urlFields_append {lead : CStr} (hlead : ∀ c ∈ lead, c = '&' ∨ c = '?') {s field : CStr}
    {fields : List CStr} (hs : urlFields s = field :: fields) :
    ∃ junk x, (∀ f ∈ junk, '=' ∉ f) ∧ (∀ c ∈ x, c = '?') ∧ urlFields (lead ++ s) = junk ++ (x ++ field) :: fields := by
  induction lead with
  | nil => exact ⟨[], [], List.forall_mem_nil _, List.forall_mem_nil _, hs⟩
  | cons c lead ih =>
    obtain ⟨hc, hrest⟩ := List.forall_mem_cons.mp hlead
    obtain ⟨junk, x, hjunk, hx, hfields⟩ := ih hrest
    rcases hc with rfl | rfl
    · -- the ampersand closes an empty field
      refine ⟨[] :: junk, x, List.forall_mem_cons.mpr ⟨List.not_mem_nil, hjunk⟩, hx, ?_⟩
      rw [List.cons_append, urlFields_ampersand, hfields]
      rfl
    · rw [List.cons_append, urlFields_cons (by decide), hfields]
      cases junk with
      | nil => exact ⟨[], '?' :: x, List.forall_mem_nil _, List.forall_mem_cons.mpr ⟨rfl, hx⟩, rfl⟩
      | cons f junk =>
        obtain ⟨hf, hjunk⟩ := List.forall_mem_cons.mp hjunk
        exact ⟨('?' :: f) :: junk, x, List.forall_mem_cons.mpr ⟨by simp [hf], hjunk⟩, hx, rfl⟩

/-- **The pieces beside the fields.** There are neither, or the first piece stands in its field behind question marks;
it ends its field, and the other pieces are the fields that are not empty, or a question mark ends it. -/
theorem headerPieces_cases (s : CStr) : headerPieces s = [] ∧ headerFields s = [] ∨
      ∃ piece pieces x, headerPieces s = piece :: pieces ∧ (∀ c ∈ x, c = '?') ∧ '?' ∉ piece ∧
        ((∃ fields, pieces = fields.filter (· ≠ []) ∧ headerFields s = ((x ++ piece) :: fields).filter ('=' ∈ ·)) ∨
          ∃ rest fields, headerFields s = ((x ++ piece ++ '?' :: rest) :: fields).filter ('=' ∈ ·)) := by
  have hlead : ∀ c ∈ s.takeWhile (· ∈ ("&?" : CStr)), c = '&' ∨ c = '?' := fun c hc => by
    simpa using List.mem_takeWhile_imp hc
  have hs : s.takeWhile (· ∈ ("&?" : CStr)) ++ s.dropWhile (· ∈ ("&?" : CStr)) = s := List.takeWhile_append_dropWhile
  rw [headerPieces, headerFields, strtok]
  generalize s.takeWhile (· ∈ ("&?" : CStr)) = lead at hlead hs
  cases hrest : s.dropWhile (· ∈ ("&?" : CStr)) with
  | nil =>
    rw [hrest] at hs
    obtain ⟨junk, x, hjunk, hx, hfields⟩ := @exists_urlFields_append _ hlead [] [] [] rfl
    rw [hs] at hfields
    refine .inl ⟨rfl, ?_⟩
    rw [hfields, List.filter_eq_nil_iff]
    intro field hfield
    rcases List.mem_append.mp hfield with hfield | hfield
    · simpa using hjunk field hfield
    · obtain rfl : field = x := by simpa using hfield
      simp only [decide_eq_true_eq]
      exact fun heq => absurd (hx _ heq) (by decide)
  | cons c u =>
    rw [hrest] at hs
    refine .inr ?_
    dsimp only
    -- the first piece, and what ends it
    have hu : (c :: u).takeWhile (· ∉ ("&?" : CStr)) ++ (c :: u).dropWhile (· ∉ ("&?" : CStr)) = c :: u :=
      List.takeWhile_append_dropWhile
    have hplain : ∀ d ∈ (c :: u).takeWhile (· ∉ ("&?" : CStr)), d ≠ '&' ∧ d ≠ '?' := fun d hd => by
      simpa using List.mem_takeWhile_imp hd
    generalize (c :: u).takeWhile (· ∉ ("&?" : CStr)) = piece at hu hplain
    have hamp : '&' ∉ piece := fun h => (hplain _ h).1 rfl
    have hquest : '?' ∉ piece := fun h => (hplain _ h).2 rfl
    have hjunkless : ∀ {junk fields : List CStr}, (∀ f ∈ junk, '=' ∉ f) →
        (junk ++ fields).filter ('=' ∈ ·) = fields.filter ('=' ∈ ·) := by
      intro junk fields hjunk
      rw [List.filter_append, List.filter_eq_nil_iff.mpr (by simpa using hjunk), List.nil_append]
    cases hend : (c :: u).dropWhile (· ∉ ("&?" : CStr)) with
    | nil =>
      have hown : urlFields (c :: u) = [piece] := by
        rw [← hu, hend, urlFields_append hamp]
        simp [urlFields]
      obtain ⟨junk, x, hjunk, hx, hfields⟩ := exists_urlFields_append hlead hown
      rw [hs] at hfields
      refine ⟨piece, [], x, rfl, hx, hquest, .inl ⟨[], rfl, ?_⟩⟩
      rw [hfields, hjunkless hjunk]
    | cons d rest =>
      have hd : d = '&' ∨ d = '?' := by
        have hstop := List.head?_dropWhile_not (fun d => decide (d ∉ ("&?" : CStr))) (c :: u)
        rw [hend] at hstop
        simpa [or_iff_not_imp_left] using hstop
      obtain ⟨field, fields, hrestFields⟩ := exists_urlFields rest
      rcases hd with rfl | rfl
      · have hown : urlFields (c :: u) = piece :: urlFields rest := by
          rw [← hu, hend, urlFields_append hamp, urlFields_ampersand]
          simp
        obtain ⟨junk, x, hjunk, hx, hfields⟩ := exists_urlFields_append hlead hown
        rw [hs] at hfields
        refine ⟨piece, _, x, rfl, hx, hquest, .inl ⟨urlFields rest, rfl, ?_⟩⟩
        rw [hfields, hjunkless hjunk]
      · have hown : urlFields (c :: u) = (piece ++ '?' :: field) :: fields := by
          rw [← hu, hend, urlFields_append hamp, urlFields_cons (by decide), hrestFields]
          rfl
        obtain ⟨junk, x, hjunk, hx, hfields⟩ := exists_urlFields_append hlead hown
        rw [hs, ← List.append_assoc] at hfields
        refine ⟨piece, _, x, rfl, hx, hquest, .inr ⟨field, fields, ?_⟩⟩
        rw [hfields, hjunkless hjunk]

/-! ## When each field has its entry -/

theorem headerPair_append {field : CStr} (h : '=' ∈ field) :
    (headerPair field).1 ++ '=' :: (headerPair field).2 = field := by
  have hsplit : field.takeWhile (· ≠ '=') ++ field.dropWhile (· ≠ '=') = field := List.takeWhile_append_dropWhile
  cases hend : field.dropWhile (· ≠ '=') with
  | nil =>
    have hno := List.dropWhile_eq_nil_iff.mp hend _ h
    simp at hno
  | cons d rest =>
    have hd : d = '=' := by
      have hstop := List.head?_dropWhile_not (fun d => decide (d ≠ '=')) field
      rw [hend] at hstop
      simpa using hstop
    rw [headerPair, hend, List.tail_cons]
    rw [hend, hd] at hsplit
    exact hsplit

theorem eq_of_headerPair_eq {f g : CStr} (hf : '=' ∈ f) (hg : '=' ∈ g) (h : headerPair f = headerPair g) : f = g := by
  rw [← headerPair_append hf, h, headerPair_append hg]

theorem take_eq_filter {pieces : List CStr} {n : ℕ} (hpairs : ∀ piece ∈ pieces.take n, '=' ∈ piece)
    (hn : n = (pieces.filter ('=' ∈ ·)).length) : pieces.take n = pieces.filter ('=' ∈ ·) ∧ n ≤ pieces.length := by
  have hle : n ≤ pieces.length := hn ▸ List.length_filter_le _ pieces
  have hfront : (pieces.take n).filter ('=' ∈ ·) = pieces.take n :=
    List.filter_eq_self.mpr fun piece hpiece => by simpa using hpairs piece hpiece
  have hsplit : pieces.filter ('=' ∈ ·) = pieces.take n ++ (pieces.drop n).filter ('=' ∈ ·) := by
    conv_lhs => rw [← List.take_append_drop n pieces, List.filter_append, hfront]
  have hlength := congrArg List.length hsplit
  rw [List.length_append, List.length_take, Nat.min_eq_left hle, ← hn] at hlength
  have hrest : (pieces.drop n).filter ('=' ∈ ·) = [] := List.eq_nil_of_length_eq_zero (by omega)
  rw [hsplit, hrest, List.append_nil]
  exact ⟨rfl, hle⟩

theorem first_entry_ne {piece field : CStr} {pieces fields : List CStr} {n : ℕ} {rest : List (Option (CStr × CStr))}
    (hpiece : '=' ∈ piece) (hfield : '=' ∈ field) (hne : field ≠ piece) :
    ((piece :: pieces).take (n + 1)).map (fun piece => some (headerPair piece)) ++ rest ≠
      (field :: fields).map fun field => some (headerPair field) := by
  rw [List.take_succ_cons, List.map_cons, List.map_cons, List.cons_append]
  intro h
  exact hne (eq_of_headerPair_eq hfield hpiece (Option.some_inj.mp (List.cons.inj h).1).symm)

/-- **When each field has its entry.** The header part is refused, or the number of its fields, as a character, is
that of the fields that are an attribute with a value, and no question mark stands in the first of these. -/
theorem urlHeaders_complete_iff (urlStrp : CStr) :
    HeadersComplete urlStrp ↔ HeadersRefused urlStrp ∨
      numHead urlStrp = (headerFields urlStrp).length ∧
        ∀ field, (headerFields urlStrp).head? = some field → '?' ∉ field := by
  rw [HeadersComplete]
  simp only [urlAddHeaders_eq_ok_iff]
  by_cases hrefused : HeadersRefused urlStrp
  · exact iff_of_true (fun _ h => absurd hrefused h.1) (.inl hrefused)
  rw [or_iff_right hrefused]
  simp only [hrefused, not_false_eq_true, true_and, forall_eq]
  refine and_congr_right fun hn => ?_
  rw [HeadersRefused, not_or] at hrefused
  obtain ⟨-, hpairs⟩ := hrefused
  push Not at hpairs
  rw [hn, Int.toNat_natCast] at hpairs ⊢
  cases hfields : headerFields urlStrp with
  | nil => simp
  | cons field fields =>
    rw [hfields, List.length_cons] at hpairs
    rw [List.length_cons, List.head?_cons]
    have hfield : '=' ∈ field := by
      have hmem : field ∈ headerFields urlStrp := hfields ▸ List.mem_cons_self
      simpa using (List.mem_filter.mp hmem).2
    have hhead : (∀ f, some field = some f → '?' ∉ f) ↔ '?' ∉ field := by simp
    rw [hhead]
    rcases headerPieces_cases urlStrp with ⟨-, hnone⟩ | ⟨piece, pieces, x, hpieces, hx, hquest, hcases⟩
    · cases hfields.symm.trans hnone
    rw [hpieces] at hpairs ⊢
    have hpiece : '=' ∈ piece := hpairs piece (by simp)
    rcases hcases with ⟨rest, rfl, hown⟩ | ⟨rest, others, hown⟩
    · have hfirst : '=' ∈ x ++ piece := List.mem_append_right x hpiece
      rw [hfields, List.filter_cons_of_pos (by simpa using hfirst)] at hown
      obtain ⟨heq, hothers⟩ := List.cons.inj hown
      cases x with
      | cons c x =>
        -- a question mark stands in front of the first piece
        subst heq
        obtain rfl := hx c List.mem_cons_self
        refine iff_of_false (first_entry_ne hpiece hfield fun heq => ?_) fun h => h (by simp)
        have hlength := congrArg List.length heq
        rw [List.length_append, List.length_cons] at hlength
        omega
      | nil =>
        obtain rfl : field = piece := heq
        have hall : (field :: rest.filter (· ≠ [])).filter ('=' ∈ ·) = field :: fields := by
          rw [List.filter_cons_of_pos (by simpa using hpiece), List.filter_filter, hothers]
          refine congrArg (field :: ·) (List.filter_congr fun f _ => ?_)
          cases f <;> simp
        obtain ⟨htake, hle⟩ := take_eq_filter hpairs (by rw [hall, List.length_cons])
        refine iff_of_true ?_ hquest
        rw [htake, hall, Nat.sub_eq_zero_of_le hle, List.replicate_zero, List.append_nil]
    · -- a question mark ends the first piece
      have hfirst : '=' ∈ x ++ piece ++ '?' :: rest := by simp [hpiece]
      rw [hfields, List.filter_cons_of_pos (by simpa using hfirst)] at hown
      obtain ⟨rfl, -⟩ := List.cons.inj hown
      refine iff_of_false (first_entry_ne hpiece hfield fun heq => ?_) fun h => h (by simp)
      have hlength := congrArg List.length heq
      rw [List.length_append, List.length_append, List.length_cons] at hlength
      omega

/-- Two adjacent ampersands leave an entry that is not assigned. -/
theorem not_headersComplete : ¬HeadersComplete "a=b&&c=d" ∧
    urlAddHeaders "a=b&&c=d" = .ok ⟨3, [some ("a", "b"), some ("c", "d"), none]⟩ := by
  have hval : urlAddHeaders "a=b&&c=d" = .ok ⟨3, [some ("a", "b"), some ("c", "d"), none]⟩ := by decide
  exact ⟨fun h => absurd (h _ hval).1 (by decide), hval⟩

end Sip
