/-
Lines of `sources.list`.

Behind `deb` and one more character, `fromLine` sees nothing of a line but its tokens, the
runs of characters between blanks.  Its loops are followed here over the token list
(`skipOptions_tokens`, `componentLoop_tokens`).

A group of options is skipped up to the first token that ends with a bracket.  If there is
none, the tokens run out, and from then on nothing changes: the loop does not end with any
number of rounds (`fromLine_ends_iff`).  Otherwise the tokens behind the group are the
source, and the line is read as it is meant (`fromLine_format`).
-/
import LinuxUtil.Apt.Sources
import LinuxUtil.Lib.Words

namespace LinuxUtil.Apt

open Httpd (cstring nextToken isspace)

/-- The tokens of a string. -/
abbrev tokens (s : List UInt8) : List Name := Words.words isspace s

theorem appendNextToken_eq (str : List UInt8) (dest : Name) :
    appendNextToken str dest = (Words.rest isspace str, dest ++ Words.first isspace str) := rfl

theorem tokens_first {s : List UInt8} {t : Name} {ts : List Name} (h : tokens s = t :: ts) :
    t ≠ [] ∧ Words.first isspace s = t ∧ tokens (Words.rest isspace s) = ts :=
  Words.words_eq_cons h

/-- At the end of the line. -/
theorem tokens_end {s : List UInt8} (h : tokens s = []) :
    Words.first isspace s = [] ∧ Words.rest isspace s = [] :=
  ⟨Words.words_eq_nil h, Words.rest_eq_nil (Words.words_eq_nil h)⟩

/-- The next token, and those behind it. -/
theorem tokens_next (s : List UInt8) : Words.first isspace s = (tokens s).headD []
    ∧ tokens (Words.rest isspace s) = (tokens s).tail := by
  cases h : tokens s with
  | nil =>
      obtain ⟨hfirst, hrest⟩ := tokens_end h
      rw [hfirst, hrest]
      exact ⟨rfl, rfl⟩
  | cons t ts => exact (tokens_first h).2

/-! ### Options -/

/-- The token ends with a closing bracket. -/
def closes (t : Name) : Bool := t.getLast? = some 93

/-- A group of options is opened and not closed. -/
def OpenGroup (ts : List Name) : Prop :=
  (∃ t, ts.head? = some t ∧ t.head? = some 91) ∧ ∀ t ∈ ts, closes t = false

/-- The loop looks for the next token that closes, beginning with the one `uri` ends with. -/
theorem skipOptions_tokens :
    ∀ (n : Nat) (ptr : List UInt8) (uri t : Name), uri ≠ [] → uri.getLast? = t.getLast? →
      ((∀ u ∈ t :: tokens ptr, closes u = false) → skipOptions n ptr uri = .error .diverges)
      ∧ ((∃ u ∈ t :: tokens ptr, closes u = true) → (tokens ptr).length < n →
        ∃ ptr', skipOptions n ptr uri = .ok ptr'
          ∧ tokens ptr' = ((t :: tokens ptr).dropWhile (!closes ·)).drop 1) := by
  intro n
  induction n with
  | zero => exact fun ptr uri t _ _ => ⟨fun _ => rfl, fun _ hn => absurd hn (Nat.not_lt_zero _)⟩
  | succ n ih =>
      intro ptr uri t hne hlast
      obtain ⟨ch, hch⟩ : ∃ ch, uri.getLast? = some ch := ⟨_, List.getLast?_eq_some_getLast hne⟩
      have hcloses : closes t = decide (ch = 93) := by
        unfold closes
        rw [← hlast, hch]
        simp
      unfold skipOptions
      rw [hch, appendNextToken_eq]
      simp only
      by_cases h93 : ch = 93
      · rw [if_pos h93]
        have ht : closes t = true := by simpa [h93] using hcloses
        refine ⟨fun hall => ?_, fun _ _ => ⟨ptr, rfl, ?_⟩⟩
        · rw [hall t List.mem_cons_self] at ht
          cases ht
        · rw [List.dropWhile_cons_of_neg (by simp [ht])]
          rfl
      · have ht : closes t = false := by simpa [h93] using hcloses
        have hne' : uri ++ Words.first isspace ptr ≠ [] := List.append_ne_nil_of_left_ne_nil hne _
        rw [if_neg h93, if_neg hne', List.dropWhile_cons_of_pos (by simp [ht])]
        cases htok : tokens ptr with
        | nil =>
            obtain ⟨hfirst, hrest⟩ := tokens_end htok
            rw [hfirst, hrest, List.append_nil]
            refine ⟨fun _ => (ih [] uri t hne hlast).1 ?_, ?_⟩
            · intro u hu
              rw [List.mem_singleton.mp hu]
              exact ht
            · rintro ⟨u, hu, hcu⟩
              rw [List.mem_singleton.mp hu, ht] at hcu
              cases hcu
        | cons u us =>
            obtain ⟨hu, hfirst, hrest⟩ := tokens_first htok
            rw [hfirst] at hne' ⊢
            have hnext := ih (Words.rest isspace ptr) (uri ++ u) u hne'
              (List.getLast?_append_of_ne_nil _ hu)
            rw [hrest] at hnext
            refine ⟨fun hall => hnext.1 fun v hv => hall v (List.mem_cons_of_mem t hv), ?_⟩
            rintro ⟨v, hv, hcv⟩ hn
            refine hnext.2 ⟨v, ?_, hcv⟩ (by rw [List.length_cons] at hn; omega)
            rcases List.mem_cons.mp hv with rfl | hv
            · rw [ht] at hcv
              cases hcv
            · exact hv

/-! ### Components -/

/-- A source that has no packages yet. -/
def newSource (uri suite component : Name) : AptListFile := ⟨[], uri, suite, component⟩

theorem componentLoop_tokens :
    ∀ (n : Nat) (ptr : List UInt8) (uri suite : Name) (files : List AptListFile),
      (tokens ptr).length < n →
      componentLoop n ptr uri suite files
        = .ok (files ++ (tokens ptr).map (newSource uri suite)) := by
  intro n
  induction n with
  | zero => intro ptr uri suite files hn; omega
  | succ n ih =>
      intro ptr uri suite files hn
      unfold componentLoop
      rw [appendNextToken_eq, List.nil_append]
      simp only
      cases htok : tokens ptr with
      | nil =>
          rw [if_pos (tokens_end htok).1, List.map_nil, List.append_nil]
      | cons t ts =>
          obtain ⟨ht, hfirst, hrest⟩ := tokens_first htok
          rw [htok, List.length_cons] at hn
          rw [hfirst, if_neg ht, ih _ uri suite _ (by rw [hrest]; omega), hrest, List.map_cons,
            List.append_assoc]
          rfl

/-! ### The line -/

/-- The tokens behind `deb` and a character. -/
def entryTokens (line : List UInt8) : List Name := tokens (cstring (line.drop 4))

/-- The tokens behind the options. -/
def sourceTokens (ts : List Name) : List Name :=
  if (ts.head?.bind List.head?) = some 91 then (ts.dropWhile (!closes ·)).drop 1 else ts

/-- What becomes of a source: without a uri, `uri.back()` leaves the string. -/
def addSources (files : List AptListFile) : List Name → Except Fault (List AptListFile)
  | [] => .error .outOfBounds
  | uri :: suite :: component :: components =>
      let uri := if uri.getLast? = some 47 then uri else uri ++ [47]
      .ok (files ++ (component :: components).map (newSource uri suite))
  | _ => .ok files

/-- A line that `fromLine` looks into. -/
def IsDeb (line : List UInt8) : Prop :=
  startswith (ascii "deb") line = true ∧ startswith (ascii "deb-src") line = false

/-- The uri and what is behind it. -/
theorem readUri_tokens (fuel : Nat) (ptr : List UInt8) :
    (OpenGroup (tokens ptr) → readUri fuel ptr = .error .diverges)
    ∧ (¬ OpenGroup (tokens ptr) → (tokens ptr).length ≤ fuel →
      ∃ ptr', readUri fuel ptr = .ok (ptr', (sourceTokens (tokens ptr)).headD [])
        ∧ tokens ptr' = (sourceTokens (tokens ptr)).tail) := by
  unfold readUri OpenGroup sourceTokens
  rw [appendNextToken_eq, List.nil_append]
  simp only
  cases htok : tokens ptr with
  | nil =>
      obtain ⟨hfirst, hrest⟩ := tokens_end htok
      rw [hfirst, hrest]
      refine ⟨?_, fun _ _ => ⟨[], rfl, rfl⟩⟩
      rintro ⟨⟨t, ht, _⟩, _⟩
      cases ht
  | cons t ts =>
      obtain ⟨ht, hfirst, hrest⟩ := tokens_first htok
      rw [hfirst]
      by_cases h91 : t.head? = some 91
      · obtain ⟨hopen, hclosed⟩ := skipOptions_tokens fuel (Words.rest isspace ptr) t t ht rfl
        rw [hrest] at hopen hclosed
        have hbind : ((t :: ts).head?.bind List.head?) = some 91 := h91
        rw [if_pos h91, if_pos hbind]
        refine ⟨fun h => ?_, fun h hfuel => ?_⟩
        · rw [hopen h.2]
          rfl
        · have hex : ∃ u ∈ t :: ts, closes u = true := by
            by_contra hno
            refine h ⟨⟨t, rfl, h91⟩, fun u hu => ?_⟩
            simpa using fun hc => hno ⟨u, hu, hc⟩
          obtain ⟨ptr', hskip, htokens⟩ := hclosed hex hfuel
          rw [hskip, ← htokens]
          obtain ⟨huri, hbehind⟩ := tokens_next ptr'
          refine ⟨Words.rest isspace ptr', ?_, hbehind⟩
          rw [← huri]
          rfl
      · have hbind : ((t :: ts).head?.bind List.head?) ≠ some 91 := h91
        rw [if_neg h91, if_neg hbind]
        refine ⟨?_, fun _ _ => ⟨_, rfl, hrest⟩⟩
        rintro ⟨⟨u, hu, hu91⟩, _⟩
        obtain rfl := Option.some.inj hu
        exact absurd hu91 h91

theorem readSources_tokens {fuel : Nat} (files : List AptListFile) {ptr : List UInt8}
    {ts : List Name} (hne : ∀ t ∈ ts, t ≠ []) (hptr : tokens ptr = ts.tail)
    (hfuel : ts.length ≤ fuel) :
    readSources fuel files ptr (ts.headD []) = addSources files ts := by
  unfold readSources
  cases ts with
  | nil => rfl
  | cons uri ts =>
      have huri := hne uri List.mem_cons_self
      have hslash : ∀ ch : UInt8, (if ch = 47 then uri else uri ++ [47]) ≠ [] := by
        intro ch
        split
        · exact huri
        · exact List.append_ne_nil_of_left_ne_nil huri _
      have hlast := List.getLast?_eq_some_getLast huri
      rw [List.headD_cons, hlast]
      simp only [appendNextToken_eq, List.nil_append, hslash, false_or]
      rw [List.tail_cons] at hptr
      cases ts with
      | nil =>
          rw [if_pos (.inl (tokens_end hptr).1)]
          rfl
      | cons suite ts =>
          obtain ⟨hsuite, hfirst, hrest⟩ := tokens_first hptr
          cases ts with
          | nil =>
              rw [if_pos (.inr (tokens_end hrest).1)]
              rfl
          | cons component components =>
              obtain ⟨hcomponent, hfirst', hrest'⟩ := tokens_first hrest
              have hlen : (tokens (Words.rest isspace (Words.rest isspace ptr))).length < fuel := by
                rw [hrest']
                simp only [List.length_cons] at hfuel
                omega
              rw [hfirst, hfirst', if_neg (by simp [hsuite, hcomponent]),
                componentLoop_tokens fuel _ _ suite _ hlen, hrest', List.append_assoc]
              simp only [addSources, hlast, Option.some.injEq]
              rfl

theorem sourceTokens_sublist (ts : List Name) : (sourceTokens ts).Sublist ts := by
  unfold sourceTokens
  split
  · exact (List.drop_sublist 1 _).trans (List.dropWhile_sublist _)
  · exact List.Sublist.refl ts

/-- **A line with `deb` is read by its tokens.** -/
theorem fromLine_tokens (fuel : Nat) (files : List AptListFile) {line : List UInt8}
    (hdeb : IsDeb line) :
    (OpenGroup (entryTokens line) → AptListFile.fromLine fuel files line = .error .diverges)
    ∧ (¬ OpenGroup (entryTokens line) → (entryTokens line).length ≤ fuel →
      AptListFile.fromLine fuel files line
        = addSources files (sourceTokens (entryTokens line))) := by
  unfold AptListFile.fromLine
  rw [if_neg (by simp [hdeb.1]), if_neg (by simp [hdeb.2])]
  by_cases hlen : line.length < 4
  · have hnil : entryTokens line = [] := by
      unfold entryTokens
      rw [List.drop_eq_nil_of_le (by omega)]
      rfl
    rw [if_pos hlen, hnil]
    refine ⟨?_, fun _ _ => rfl⟩
    rintro ⟨⟨t, ht, _⟩, _⟩
    cases ht
  · rw [if_neg hlen]
    obtain ⟨hopen, hclosed⟩ := readUri_tokens fuel (cstring (line.drop 4))
    refine ⟨fun h => ?_, fun h hfuel => ?_⟩
    · rw [hopen h]
      rfl
    · obtain ⟨ptr, hread, hptr⟩ := hclosed h hfuel
      have hsub := sourceTokens_sublist (entryTokens line)
      rw [hread]
      exact readSources_tokens files (fun t ht => Words.word_ne_nil t (hsub.subset ht)) hptr
        (hsub.length_le.trans hfuel)

theorem fromLine_ignored (fuel : Nat) (files : List AptListFile) {line : List UInt8}
    (h : ¬ IsDeb line) : AptListFile.fromLine fuel files line = .ok files := by
  unfold IsDeb at h
  unfold AptListFile.fromLine
  cases hdeb : startswith (ascii "deb") line with
  | false => rfl
  | true =>
      have hsrc : startswith (ascii "deb-src") line = true := by
        by_contra hno
        exact h ⟨hdeb, by simpa using hno⟩
      rw [hsrc]
      rfl

theorem addSources_ends (files : List AptListFile) (ts : List Name) :
    addSources files ts ≠ .error .diverges
    ∧ ((∃ files', addSources files ts = .ok files') ↔ ts ≠ []) := by
  match ts with
  | [] =>
      refine ⟨fun h => ?_, ?_, fun h => absurd rfl h⟩
      · cases h
      · rintro ⟨files', h⟩
        cases h
  | [_] => exact ⟨fun h => (by cases h), fun _ => List.cons_ne_nil _ _, fun _ => ⟨_, rfl⟩⟩
  | [_, _] => exact ⟨fun h => (by cases h), fun _ => List.cons_ne_nil _ _, fun _ => ⟨_, rfl⟩⟩
  | _ :: _ :: _ :: _ => exact ⟨fun h => (by cases h), fun _ => List.cons_ne_nil _ _, fun _ => ⟨_, rfl⟩⟩

theorem entryTokens_length (line : List UInt8) : (entryTokens line).length ≤ line.length := by
  have hwords := Words.words_length isspace (cstring (line.drop 4))
  have hcstring := (List.takeWhile_sublist (· ≠ 0) (l := line.drop 4)).length_le
  have hdrop := (List.drop_sublist 4 line).length_le
  unfold entryTokens
  exact hwords.trans (hcstring.trans hdrop)

/-- **`fromLine` ends exactly if no group of options is left open**, and returns if there is a uri as
well. -/
theorem fromLine_ends_iff (files : List AptListFile) (line : List UInt8) :
    ((∃ fuel, AptListFile.fromLine fuel files line ≠ .error .diverges)
        ↔ ¬ (IsDeb line ∧ OpenGroup (entryTokens line)))
    ∧ ∀ fuel, line.length ≤ fuel →
        ((∃ files', AptListFile.fromLine fuel files line = .ok files')
          ↔ ¬ IsDeb line
            ∨ ¬ OpenGroup (entryTokens line) ∧ sourceTokens (entryTokens line) ≠ []) := by
  have hlen := entryTokens_length line
  by_cases hdeb : IsDeb line
  · have htokens := fun fuel => fromLine_tokens fuel files hdeb
    by_cases hopen : OpenGroup (entryTokens line)
    · refine ⟨⟨?_, fun h => absurd ⟨hdeb, hopen⟩ h⟩, fun fuel _ => ⟨?_, fun h => ?_⟩⟩
      · rintro ⟨fuel, h⟩
        exact absurd ((htokens fuel).1 hopen) h
      · rintro ⟨files', h⟩
        rw [(htokens fuel).1 hopen] at h
        cases h
      · exact h.elim (absurd hdeb) fun h => absurd hopen h.1
    · obtain ⟨hends, hreturns⟩ := addSources_ends files (sourceTokens (entryTokens line))
      refine ⟨⟨fun _ h => hopen h.2, fun _ => ⟨line.length, ?_⟩⟩, fun fuel hfuel => ?_⟩
      · rw [(htokens _).2 hopen hlen]
        exact hends
      · rw [(htokens fuel).2 hopen (hlen.trans hfuel), hreturns]
        exact ⟨fun h => .inr ⟨hopen, h⟩, fun h => h.elim (absurd hdeb) (·.2)⟩
  · have hrun := fun fuel => fromLine_ignored fuel files hdeb
    refine ⟨⟨fun _ h => hdeb h.1, fun _ => ⟨0, ?_⟩⟩, fun fuel _ => ?_⟩
    · rw [hrun 0]
      exact fun h => nomatch h
    · rw [hrun fuel]
      exact ⟨fun _ => .inl hdeb, fun _ => ⟨files, rfl⟩⟩

/-- The group of options in `deb [arch=amd64 http://x/ s c` is not closed. -/
theorem fromLine_hangs :
    (∀ fuel files, AptListFile.fromLine fuel files (ascii "deb [arch=amd64 http://x/ s c")
        = .error .diverges)
    ∧ ¬ ∀ (files : List AptListFile) (line : List UInt8), 0 ∉ line →
        ∃ fuel, AptListFile.fromLine fuel files line ≠ .error .diverges := by
  have hhangs : ∀ fuel files, AptListFile.fromLine fuel files
      (ascii "deb [arch=amd64 http://x/ s c") = .error .diverges := by
    intro fuel files
    refine (fromLine_tokens fuel files ⟨by decide, by decide⟩).1 ?_
    exact ⟨⟨ascii "[arch=amd64", by decide, by decide⟩, by decide⟩
  refine ⟨hhangs, fun h => ?_⟩
  obtain ⟨fuel, hends⟩ := h [] (ascii "deb [arch=amd64 http://x/ s c") (by decide)
  exact hends (hhangs fuel [])

/-! ### Well-formed lines -/

/-- No options, or the tokens from one that opens a group to the first that closes it. -/
def OptionGroup (options : List Name) : Prop :=
  options = [] ∨ ∃ init last, options = init ++ [last]
    ∧ (options.head?.bind List.head?) = some 91 ∧ closes last = true ∧ ∀ t ∈ init, closes t = false

/-- A line with `deb`, a blank, options and a source, with blanks wherever there may be some. -/
structure SourceLine (line : List UInt8) (options source : List Name) : Prop where
  deb : startswith (ascii "deb") line = true
  blank : ∃ ch, (line.drop 3).head? = some ch ∧ isspace ch = true
  tokens : entryTokens line = options ++ source
  group : OptionGroup options
  uri : (source.head?.bind List.head?) ≠ some 91

theorem SourceLine.isDeb {line : List UInt8} {options source : List Name}
    (h : SourceLine line options source) : IsDeb line := by
  refine ⟨h.deb, ?_⟩
  obtain ⟨ch, hch, hspace⟩ := h.blank
  cases hsrc : startswith (ascii "deb-src") line with
  | false => rfl
  | true =>
      obtain ⟨tail, rfl⟩ := List.isPrefixOf_iff_prefix.mp hsrc
      obtain rfl : (45 : UInt8) = ch := Option.some.inj hch
      revert hspace
      decide

theorem SourceLine.source {line : List UInt8} {options source : List Name}
    (h : SourceLine line options source) :
    ¬ OpenGroup (entryTokens line) ∧ sourceTokens (entryTokens line) = source := by
  rw [h.tokens]
  rcases h.group with rfl | ⟨init, last, rfl, hopens, hlast, hinit⟩
  · rw [List.nil_append]
    refine ⟨?_, if_neg h.uri⟩
    rintro ⟨⟨t, ht, h91⟩, _⟩
    refine h.uri ?_
    rw [ht]
    exact h91
  · have hhead : ((init ++ [last] ++ source).head?.bind List.head?) = some 91 := by
      rw [List.head?_append_of_ne_nil _ (by simp)]
      exact hopens
    refine ⟨fun hopen => ?_, ?_⟩
    · rw [hopen.2 last (by simp)] at hlast
      cases hlast
    · unfold sourceTokens
      rw [if_pos hhead, List.append_assoc, List.dropWhile_append_of_pos]
      · simp [hlast]
      · intro t ht
        simp [hinit t ht]

/-- **`fromLine` reads the one-line format**: one source for every component, and nothing from any
other line. -/
theorem fromLine_format (files : List AptListFile) (line : List UInt8) :
    (∀ options uri suite components, components ≠ [] →
        SourceLine line options (uri :: suite :: components) → ∀ fuel, line.length ≤ fuel →
        AptListFile.fromLine fuel files line
          = .ok (files ++ components.map
            (newSource (if uri.getLast? = some 47 then uri else uri ++ [47]) suite)))
    ∧ (∀ options source, source.length = 1 ∨ source.length = 2 →
        SourceLine line options source → ∀ fuel, line.length ≤ fuel →
        AptListFile.fromLine fuel files line = .ok files)
    ∧ (startswith (ascii "deb") line = false ∨ startswith (ascii "deb-src") line = true →
        ∀ fuel, AptListFile.fromLine fuel files line = .ok files) := by
  have hlen := entryTokens_length line
  have hread : ∀ options source, SourceLine line options source → ∀ fuel, line.length ≤ fuel →
      AptListFile.fromLine fuel files line = addSources files source := by
    intro options source h fuel hfuel
    obtain ⟨hopen, hsource⟩ := h.source
    rw [(fromLine_tokens fuel files h.isDeb).2 hopen (hlen.trans hfuel), hsource]
  refine ⟨?_, ?_, ?_⟩
  · intro options uri suite components hne h fuel hfuel
    obtain ⟨component, components, rfl⟩ := List.exists_cons_of_ne_nil hne
    exact hread options _ h fuel hfuel
  · intro options source hcount h fuel hfuel
    match source with
    | [] => simp at hcount
    | [_] => exact hread options _ h fuel hfuel
    | [_, _] => exact hread options _ h fuel hfuel
    | _ :: _ :: _ :: _ => simp at hcount
  · intro h fuel
    refine fromLine_ignored fuel files fun hdeb => ?_
    rcases h with h | h
    · rw [hdeb.1] at h
      cases h
    · rw [hdeb.2] at h
      cases h

/-- A line with a group of three tokens and two components. -/
theorem fromLine_format_options :
    AptListFile.fromLine 64 [] (ascii "deb  [ arch=amd64 ] http://x.org/u\tjammy main universe ")
      = .ok [newSource (ascii "http://x.org/u/") (ascii "jammy") (ascii "main"),
        newSource (ascii "http://x.org/u/") (ascii "jammy") (ascii "universe")] := by
  refine (fromLine_format [] _).1 [ascii "[", ascii "arch=amd64", ascii "]"] (ascii "http://x.org/u")
    (ascii "jammy") [ascii "main", ascii "universe"] (by decide) ?_ 64 (by decide)
  refine ⟨by decide, ⟨32, by decide, by decide⟩, by decide, .inr ?_, by decide⟩
  exact ⟨[ascii "[", ascii "arch=amd64"], ascii "]", by decide, by decide, by decide, by decide⟩

end LinuxUtil.Apt
