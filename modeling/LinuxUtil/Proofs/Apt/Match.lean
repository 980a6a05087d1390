/-
Which list files are attributed to a source.

The name of a list file is a sequence of tokens with underscores between them.  `match`
compares the token at index 3 with the suite and the one at index 4 with the component, as
far as there are such tokens, and takes the first two, with slashes, for the end of the
uri (`matchLoop_tokens`, `match_iff`).

A uri is a sequence of parts with slashes between them as well.  So its last part must be
the second token, and the one before it must end with the first (`located_iff`).  This is
right for uris with one component in their path, for which the scheme was made.  With more
the suite is somewhere else in the name, and without any there is no part before the
host: then a source does not get its list files (`match_own_iff`).  And a name with few
tokens, or one whose first token is only the end of a host, is taken by a source it does
not belong to (`match_right_iff`).
-/
import LinuxUtil.Apt.Sources
import Mathlib.Data.List.Infix
import Mathlib.Data.List.TakeWhile

namespace LinuxUtil.Apt

/-! ### Names of list files -/

/-- The tokens of a file name. -/
def nameTokens (file : Name) : List Name := file.splitOn 95

/-- A name that ends with a token. -/
def Proper (file : Name) : Prop := ∃ ch, file.getLast? = some ch ∧ ch ≠ 95

/-- A name is one token, or a token, an underscore and the rest. -/
theorem underscore_cases (file : Name) :
    (file.dropWhile (· ≠ 95) = [] ∧ file.takeWhile (· ≠ 95) = file ∧ 95 ∉ file)
    ∨ ∃ rest, file.dropWhile (· ≠ 95) = 95 :: rest ∧ 95 ∉ file.takeWhile (· ≠ 95)
      ∧ file = file.takeWhile (· ≠ 95) ++ 95 :: rest := by
  have hplain : 95 ∉ file.takeWhile (· ≠ 95) := by
    intro h
    simpa using List.mem_takeWhile_imp h
  have hsplit := List.takeWhile_append_dropWhile (p := fun ch : UInt8 => decide (ch ≠ 95)) (l := file)
  have hhead := List.head?_dropWhile_not (fun ch : UInt8 => decide (ch ≠ 95)) file
  cases hrest : file.dropWhile (· ≠ 95) with
  | nil =>
      rw [hrest, List.append_nil] at hsplit
      rw [hsplit] at hplain
      exact .inl ⟨rfl, hsplit, hplain⟩
  | cons ch rest =>
      rw [hrest] at hsplit hhead
      obtain rfl : ch = 95 := by simpa using hhead
      exact .inr ⟨rest, rfl, hplain, hsplit.symm⟩

/-- `match` goes on behind an underscore. -/
theorem nameTokens_eq (file : Name) :
    nameTokens file = file.takeWhile (· ≠ 95) ::
      (match file.dropWhile (· ≠ 95) with
        | [] => []
        | _ :: rest => nameTokens rest) := by
  rcases underscore_cases file with ⟨hnil, htake, hplain⟩ | ⟨rest, hrest, hplain, hfile⟩
  · rw [hnil, htake]
    exact List.splitOn_eq_singleton hplain
  · have hcut := List.splitOn_append_cons_self_of_not_mem hplain rest
    rw [← hfile] at hcut
    rw [hrest]
    exact hcut

theorem Proper.rest {file : Name} (h : Proper file) {ch : UInt8} {rest : Name}
    (hrest : file.dropWhile (· ≠ 95) = ch :: rest) : Proper rest := by
  obtain ⟨c, hlast, hc⟩ := h
  rcases underscore_cases file with ⟨hnil, -, -⟩ | ⟨rest', hrest', -, hfile⟩
  · rw [hnil] at hrest
    cases hrest
  · rw [hrest'] at hrest
    obtain ⟨-, rfl⟩ := List.cons.inj hrest
    rw [hfile, List.getLast?_append_of_ne_nil _ (List.cons_ne_nil _ _)] at hlast
    cases rest' with
    | nil => exact absurd (Option.some.inj hlast).symm hc
    | cons d rest => exact ⟨c, by rwa [List.getLast?_cons_cons] at hlast, hc⟩

/-- The loop, over the tokens that are left. -/
def matchTokens (suite component : Name) : Nat → List Name → Name → Option Name
  | _, [], actualUri => some actualUri
  | k, t :: ts, actualUri =>
      let actualUri := if k < 2 then actualUri ++ t ++ [47] else actualUri
      if k = 3 ∧ t ≠ suite then none
      else if k = 4 ∧ t ≠ component then none
      else if ts = [] ∨ k + 1 > 4 then some actualUri
      else matchTokens suite component (k + 1) ts actualUri

theorem matchLoop_tokens (suite component : Name) :
    ∀ (n : Nat) (file : Name) (k : Nat) (actualUri : Name), Proper file → file.length ≤ n →
      matchLoop suite component n file k actualUri
        = matchTokens suite component k (nameTokens file) actualUri := by
  intro n
  induction n with
  | zero =>
      rintro file k actualUri ⟨ch, hlast, _⟩ hn
      rw [List.length_eq_zero_iff.mp (Nat.le_zero.mp hn)] at hlast
      cases hlast
  | succ n ih =>
      intro file k actualUri hproper hn
      cases file with
      | nil =>
          obtain ⟨ch, hlast, _⟩ := hproper
          cases hlast
      | cons c file =>
          rw [nameTokens_eq]
          unfold matchLoop
          simp only
          cases hrest : (c :: file).dropWhile (· ≠ 95) with
          | nil =>
              simp only [matchTokens, true_or, if_true]
          | cons d rest =>
              have hlen : rest.length ≤ n := by
                have := (List.dropWhile_sublist (fun ch : UInt8 => decide (ch ≠ 95))
                  (l := c :: file)).length_le
                rw [hrest] at this
                simp only [List.length_cons] at this hn
                omega
              have hne : nameTokens rest ≠ [] := List.splitOn_ne_nil 95 rest
              unfold matchTokens
              simp only [List.cons_ne_nil, hne, false_or, List.drop_one, List.tail_cons]
              rw [ih rest _ _ (hproper.rest hrest) hlen]

/-- The tokens of the name agree with the suite and the component where they are there. -/
def Agrees (ts : List Name) (suite component : Name) : Prop :=
  (∀ t, ts[3]? = some t → t = suite) ∧ ∀ t, ts[4]? = some t → t = component

theorem agrees_iff {ts : List Name} (h : 5 ≤ ts.length) (suite component : Name) :
    Agrees ts suite component ↔ ts[3]? = some suite ∧ ts[4]? = some component := by
  unfold Agrees
  rw [List.getElem?_eq_getElem (show 3 < ts.length by omega),
    List.getElem?_eq_getElem (show 4 < ts.length by omega)]
  simp

/-- The uri as the first two tokens give it. -/
def actualUri (ts : List Name) : Name := (ts.take 2).flatMap (· ++ [47])

theorem matchTokens_eq (suite component : Name) (ts : List Name) :
    (Agrees ts suite component → matchTokens suite component 0 ts [] = some (actualUri ts))
    ∧ (¬ Agrees ts suite component → matchTokens suite component 0 ts [] = none) := by
  match ts with
  | [] => simp [Agrees, matchTokens, actualUri]
  | [_] => simp [Agrees, matchTokens, actualUri]
  | [_, _] => simp [Agrees, matchTokens, actualUri]
  | [_, _, _] => simp [Agrees, matchTokens, actualUri]
  | [_, _, _, t] =>
      by_cases ht : t = suite
      · simp [Agrees, matchTokens, actualUri, ht]
      · simp [Agrees, matchTokens, ht]
  | _ :: _ :: _ :: t :: u :: _ =>
      by_cases ht : t = suite
      · by_cases hu : u = component
        · simp [Agrees, matchTokens, actualUri, ht, hu]
        · simp [Agrees, matchTokens, ht, hu]
      · simp [Agrees, matchTokens, ht]

/-- **`match`** compares the suite, the component and the end of the uri. -/
theorem match_iff (f : AptListFile) {file : Name} (hproper : Proper file) :
    f.match_ file = true ↔ Agrees (nameTokens file) f.suite f.component
      ∧ actualUri (nameTokens file) <:+ f.uri := by
  unfold AptListFile.match_
  rw [matchLoop_tokens _ _ _ file 0 [] hproper (Nat.le_refl _)]
  obtain ⟨hyes, hno⟩ := matchTokens_eq f.suite f.component (nameTokens file)
  by_cases hagree : Agrees (nameTokens file) f.suite f.component
  · rw [hyes hagree]
    simp only [hagree, true_and]
    split
    · next hlt =>
        refine ⟨fun h => ?_, fun h => ?_⟩
        · cases h
        · have := h.length_le
          omega
    · rw [beq_iff_eq, List.suffix_iff_eq_drop]
      exact eq_comm
  · rw [hno hagree]
    refine ⟨fun h => ?_, fun h => absurd h.1 hagree⟩
    cases h

/-! ### Uris -/

/-- A part of a uri or of a file name. -/
structure Part where
  bytes : Name
  noSlash : 47 ∉ bytes
  noUnderscore : 95 ∉ bytes

structure SourceUri where
  scheme : Name
  host : Part
  path : List Part

/-- `scheme://host/p1/.../pk/`. -/
def SourceUri.render (u : SourceUri) : Name :=
  u.scheme ++ ascii "://" ++ (u.host :: u.path).flatMap fun p => p.bytes ++ [47]

/-- The part before the last one, and the last one. -/
def lastTwo : Name → Name → List Part → Name × Name
  | before, last, [] => (before, last)
  | _, last, p :: path => lastTwo last p.bytes path

/-- In front of the host there is an empty part. -/
def SourceUri.lastTwo (u : SourceUri) : Name × Name := Apt.lastTwo [] u.host.bytes u.path

/-- The first tokens of a name are at the end of a uri. -/
def Located (ts : List Name) (before last : Name) : Prop :=
  match ts with
  | [] => True
  | [t] => t <:+ last
  | t :: t' :: _ => t' = last ∧ t <:+ before

/-- The end of a uri from its last two parts on. -/
theorem lastTwo_append :
    ∀ (path : List Part) (before last : Name), 47 ∉ before → 47 ∉ last →
      ∃ front, before ++ [47] ++ (last ++ [47] ++ path.flatMap fun p => p.bytes ++ [47])
          = front ++ ((lastTwo before last path).1 ++ [47] ++ (lastTwo before last path).2 ++ [47])
        ∧ (front = [] ∨ ∃ front', front = front' ++ [47])
        ∧ 47 ∉ (lastTwo before last path).1 ∧ 47 ∉ (lastTwo before last path).2 := by
  intro path
  induction path with
  | nil =>
      intro before last hb hl
      refine ⟨[], ?_, .inl rfl, hb, hl⟩
      simp [lastTwo]
  | cons p path ih =>
      intro before last hb hl
      obtain ⟨front, heq, hfront, hb', hl'⟩ := ih last p.bytes hl p.noSlash
      refine ⟨before ++ [47] ++ front, ?_, .inr ?_, hb', hl'⟩
      · rw [List.flatMap_cons, List.append_assoc (before ++ [47]), lastTwo, ← heq]
      · rcases hfront with rfl | ⟨front', rfl⟩
        · exact ⟨before, by simp⟩
        · exact ⟨before ++ [47] ++ front', by simp⟩

/-- The last slash is in one place. -/
theorem slash_unique {a b x y : Name} (hx : 47 ∉ x) (hy : 47 ∉ y)
    (h : a ++ 47 :: x = b ++ 47 :: y) : a = b ∧ x = y := by
  have hmid : ∀ {c u v : Name}, 47 ∉ u → 47 :: u = c ++ 47 :: v → c = [] := by
    intro c u v hu heq
    cases c with
    | nil => rfl
    | cons d c =>
        obtain ⟨-, rfl⟩ := List.cons.inj heq
        exact absurd (by simp) hu
  rcases List.append_eq_append_iff.mp h with ⟨c, rfl, heq⟩ | ⟨c, rfl, heq⟩
  · obtain rfl := hmid hx heq
    exact ⟨(List.append_nil a).symm, (List.cons.inj heq).2⟩
  · obtain rfl := hmid hy heq
    exact ⟨List.append_nil b, (List.cons.inj heq).2.symm⟩

theorem suffix_concat {a b : Name} : a ++ [47] <:+ b ++ [47] ↔ a <:+ b := by
  rw [← List.reverse_prefix, List.reverse_append, List.reverse_append]
  show (47 :: a.reverse) <+: 47 :: b.reverse ↔ _
  rw [List.cons_prefix_cons, List.reverse_prefix]
  exact ⟨And.right, fun h => ⟨rfl, h⟩⟩

/-- Two parts at the end. -/
theorem suffix_parts {a b x y : Name} (hx : 47 ∉ x) (hy : 47 ∉ y) :
    a ++ [47] ++ x <:+ b ++ [47] ++ y ↔ x = y ∧ a <:+ b := by
  refine ⟨?_, ?_⟩
  · rintro ⟨z, hz⟩
    have heq : (z ++ a) ++ 47 :: x = b ++ 47 :: y := by simpa using hz
    obtain ⟨hb, hxy⟩ := slash_unique hx hy heq
    exact ⟨hxy, z, hb⟩
  · rintro ⟨rfl, z, rfl⟩
    exact ⟨z, by simp⟩

/-- A part at the end. -/
theorem suffix_part {a front y : Name} (ha : 47 ∉ a)
    (hfront : front = [] ∨ ∃ front', front = front' ++ [47]) : a <:+ front ++ y ↔ a <:+ y := by
  refine ⟨?_, fun h => h.trans (List.suffix_append front y)⟩
  rcases hfront with rfl | ⟨front', rfl⟩
  · exact id
  · rintro ⟨z, hz⟩
    rcases List.append_eq_append_iff.mp hz with ⟨c, hc, rfl⟩ | ⟨c, rfl, rfl⟩
    · rcases List.eq_nil_or_concat c with rfl | ⟨c', ch, rfl⟩
      · exact List.suffix_refl y
      · rw [List.concat_eq_append, ← List.append_assoc] at hc
        obtain ⟨_, hch⟩ := List.append_inj' hc rfl
        obtain rfl : (47 : UInt8) = ch := by simpa using hch
        exact absurd (by simp) ha
    · exact List.suffix_append c a

/-- **The first two tokens are the end of the uri** exactly if the second is its last part and the
first the end of the part before. -/
theorem located_iff (u : SourceUri) {ts : List Name} (hts : ∀ t ∈ ts, 47 ∉ t) :
    actualUri ts <:+ u.render ↔ Located ts u.lastTwo.1 u.lastTwo.2 := by
  obtain ⟨front, heq, hfront, hb, hl⟩ :=
    lastTwo_append u.path [] u.host.bytes List.not_mem_nil u.host.noSlash
  have hrender : u.render = (u.scheme ++ [58, 47] ++ front)
      ++ (u.lastTwo.1 ++ [47] ++ u.lastTwo.2 ++ [47]) := by
    unfold SourceUri.render SourceUri.lastTwo
    rw [List.append_assoc (u.scheme ++ [58, 47]), ← heq]
    simp [ascii, List.flatMap_cons]
  have hfront' : u.scheme ++ [58, 47] ++ front = []
      ∨ ∃ front', u.scheme ++ [58, 47] ++ front = front' ++ [47] := by
    rcases hfront with rfl | ⟨front', rfl⟩
    · exact .inr ⟨u.scheme ++ [58], by simp⟩
    · exact .inr ⟨u.scheme ++ [58, 47] ++ front', by simp⟩
  rw [hrender]
  match ts with
  | [] => exact ⟨fun _ => trivial, fun _ => List.nil_suffix⟩
  | [t] =>
      have ht := hts t List.mem_cons_self
      have hone : actualUri [t] = t ++ [47] := List.append_nil _
      rw [hone, ← List.append_assoc, suffix_concat, ← List.append_assoc,
        suffix_part ht (.inr ⟨_, (List.append_assoc _ _ _).symm⟩)]
      exact Iff.rfl
  | t :: t' :: ts =>
      have ht := hts t List.mem_cons_self
      have ht' := hts t' (List.mem_cons_of_mem t List.mem_cons_self)
      change 47 ∉ u.lastTwo.2 at hl
      have htwo : actualUri (t :: t' :: ts) = t ++ [47] ++ t' ++ [47] := by simp [actualUri]
      rw [htwo, ← List.append_assoc, suffix_concat, ← List.append_assoc, ← List.append_assoc,
        suffix_parts ht' hl, suffix_part ht hfront']
      exact Iff.rfl

/-! ### Wrong sources -/

/-- The name of a list file. -/
structure ListName where
  bytes : Name
  noSlash : 47 ∉ bytes
  packages : ascii "Packages" <:+ bytes

theorem ListName.proper (file : ListName) : Proper file.bytes := by
  obtain ⟨front, hfront⟩ := file.packages
  refine ⟨115, ?_, by decide⟩
  rw [← hfront, List.getLast?_append_of_ne_nil _ (by decide)]
  decide

theorem nameTokens_subset :
    ∀ (file : Name), ∀ t ∈ nameTokens file, t ⊆ file := by
  intro file
  unfold nameTokens
  induction file with
  | nil =>
      intro t ht
      rw [List.splitOn_nil, List.mem_singleton] at ht
      rw [ht]
      exact List.Subset.refl []
  | cons ch file ih =>
      intro t ht
      have hskip : ∀ t ∈ file.splitOn 95, t ⊆ ch :: file :=
        fun t ht c hc => List.mem_cons_of_mem ch (ih t ht hc)
      rw [List.splitOn_cons_eq_if_modifyHead] at ht
      split at ht
      · rcases List.mem_cons.mp ht with rfl | ht
        · exact List.nil_subset _
        · exact hskip t ht
      · obtain ⟨u, us, hu⟩ := List.exists_cons_of_ne_nil (List.splitOn_ne_nil 95 file)
        rw [hu] at ht hskip ih
        rcases List.mem_cons.mp ht with rfl | ht
        · exact List.cons_subset_cons ch (ih u List.mem_cons_self)
        · exact hskip t (List.mem_cons_of_mem u ht)

theorem ListName.tokens_noSlash (file : ListName) : ∀ t ∈ nameTokens file.bytes, 47 ∉ t :=
  fun t ht h => file.noSlash (nameTokens_subset file.bytes t ht h)

/-- The source with some packages. -/
def SourceUri.source (u : SourceUri) (table : Table) (suite component : Name) : AptListFile :=
  ⟨table, u.render, suite, component⟩

/-- The source takes the name for one of its own, and it is not: a token is missing, or the first
one is not the host. -/
def Strays (u : SourceUri) (suite component : Name) (ts : List Name) : Prop :=
  Agrees ts suite component ∧ Located ts u.lastTwo.1 u.lastTwo.2
    ∧ (ts.length < 5 ∨ ts.head? ≠ some u.host.bytes)

/-- **A list file is attributed to the right source exactly if its name does not stray.** -/
theorem match_right_iff (u : SourceUri) (table : Table) (suite component : Name) (file : ListName) :
    ((u.source table suite component).match_ file.bytes = true →
        (nameTokens file.bytes).head? = some u.host.bytes
        ∧ (nameTokens file.bytes)[3]? = some suite ∧ (nameTokens file.bytes)[4]? = some component)
      ↔ ¬ Strays u suite component (nameTokens file.bytes) := by
  have hmatch : (u.source table suite component).match_ file.bytes = true
      ↔ Agrees (nameTokens file.bytes) suite component
        ∧ Located (nameTokens file.bytes) u.lastTwo.1 u.lastTwo.2 := by
    rw [match_iff _ file.proper, ← located_iff u file.tokens_noSlash]
    exact Iff.rfl
  rw [hmatch]
  unfold Strays
  refine ⟨?_, ?_⟩
  · rintro h ⟨hagree, hlocated, hstray⟩
    obtain ⟨hhost, _, hcomponent⟩ := h ⟨hagree, hlocated⟩
    rcases hstray with hlen | hne
    · rw [List.getElem?_eq_none (by omega)] at hcomponent
      cases hcomponent
    · exact hne hhost
  · rintro h ⟨hagree, hlocated⟩
    rw [not_and, not_and, not_or, not_lt, not_not] at h
    obtain ⟨hlen, hhost⟩ := h hagree hlocated
    exact ⟨hhost, (agrees_iff hlen suite component).mp hagree⟩

/-- `http://archive.ubuntu.com/ubuntu/`. -/
def ubuntu : SourceUri where
  scheme := ascii "http"
  host := ⟨ascii "archive.ubuntu.com", by decide, by decide⟩
  path := [⟨ascii "ubuntu", by decide, by decide⟩]

/-- The file of another host, whose name is the end of the host's. -/
theorem match_takes_stray :
    (ubuntu.source [] (ascii "jammy") (ascii "main")).match_
        (ascii "ubuntu.com_ubuntu_dists_jammy_main_binary-amd64_Packages") = true
    ∧ ¬ ∀ (u : SourceUri) (table : Table) (suite component : Name) (file : ListName),
        (u.source table suite component).match_ file.bytes = true →
          (nameTokens file.bytes).head? = some u.host.bytes
          ∧ (nameTokens file.bytes)[3]? = some suite
          ∧ (nameTokens file.bytes)[4]? = some component := by
  have htaken : (ubuntu.source [] (ascii "jammy") (ascii "main")).match_
      (ascii "ubuntu.com_ubuntu_dists_jammy_main_binary-amd64_Packages") = true := by decide
  refine ⟨htaken, fun h => ?_⟩
  have hright := (h ubuntu [] (ascii "jammy") (ascii "main")
    ⟨ascii "ubuntu.com_ubuntu_dists_jammy_main_binary-amd64_Packages", by decide, by decide⟩ htaken).1
  revert hright
  decide

/-! ### The files of a source -/

/-- The tokens of a list file's name: the uri, the suite and the component. -/
def SourceUri.names (u : SourceUri) (suite component : Part) : List Name :=
  (u.host :: u.path).map Part.bytes
    ++ [ascii "dists", suite.bytes, component.bytes, ascii "binary-amd64", ascii "Packages"]

/-- The name apt uses for the list file. -/
def SourceUri.listFile (u : SourceUri) (suite component : Part) : Name :=
  [95].intercalate (u.names suite component)

/-- With one component in the path the tokens are where `match` looks for them.  With more, other
tokens are there, and they would have to be the same. -/
def Fits (u : SourceUri) (suite component : Part) : Prop :=
  match u.path with
  | [] => False
  | [_] => True
  | p :: _ :: _ => (u.names suite component)[3]? = some suite.bytes
      ∧ (u.names suite component)[4]? = some component.bytes
      ∧ p.bytes = u.lastTwo.2 ∧ u.host.bytes <:+ u.lastTwo.1

theorem listTokens_plain (u : SourceUri) (suite component : Part) :
    ∀ t ∈ u.names suite component, 95 ∉ t ∧ 47 ∉ t := by
  intro t ht
  rcases List.mem_append.mp ht with ht | ht
  · obtain ⟨p, _, rfl⟩ := List.mem_map.mp ht
    exact ⟨p.noUnderscore, p.noSlash⟩
  · simp only [List.mem_cons, List.not_mem_nil, or_false] at ht
    rcases ht with rfl | rfl | rfl | rfl | rfl
    · decide
    · exact ⟨suite.noUnderscore, suite.noSlash⟩
    · exact ⟨component.noUnderscore, component.noSlash⟩
    · decide
    · decide

theorem nameTokens_listFile (u : SourceUri) (suite component : Part) :
    nameTokens (u.listFile suite component) = u.names suite component :=
  List.splitOn_intercalate 95 (fun t ht => (listTokens_plain u suite component t ht).1)
    (List.cons_ne_nil _ _)

theorem suffix_intercalate (x : UInt8) (y : Name) :
    ∀ ts : List Name, y <:+ [x].intercalate (ts ++ [y]) := by
  intro ts
  induction ts with
  | nil => simp
  | cons t ts ih =>
      rw [List.cons_append, List.intercalate_cons_of_ne_nil (by simp)]
      exact ih.trans (List.suffix_append _ _)

theorem proper_listFile (u : SourceUri) (suite component : Part) :
    Proper (u.listFile suite component) := by
  obtain ⟨front, hfront⟩ := suffix_intercalate 95 (ascii "Packages")
    ((u.host :: u.path).map Part.bytes
      ++ [ascii "dists", suite.bytes, component.bytes, ascii "binary-amd64"])
  have hlast : front ++ ascii "Packages" = u.listFile suite component := by
    rw [hfront, List.append_assoc]
    rfl
  refine ⟨115, ?_, by decide⟩
  rw [← hlast, List.getLast?_append_of_ne_nil _ (by decide)]
  decide

/-- **A source gets its own list files exactly if they fit.** -/
theorem match_own_iff (u : SourceUri) (table : Table) (suite component : Part)
    (hhost : u.host.bytes ≠ []) :
    (u.source table suite.bytes component.bytes).match_ (u.listFile suite component) = true
      ↔ Fits u suite component := by
  have hslash : ∀ t ∈ u.names suite component, 47 ∉ t :=
    fun t ht => (listTokens_plain u suite component t ht).2
  have hiff : (u.source table suite.bytes component.bytes).match_ (u.listFile suite component) = true
      ↔ Agrees (u.names suite component) suite.bytes component.bytes
        ∧ Located (u.names suite component) u.lastTwo.1 u.lastTwo.2 := by
    rw [match_iff _ (proper_listFile u suite component), nameTokens_listFile,
      ← located_iff u hslash]
    exact Iff.rfl
  rw [hiff]
  obtain ⟨scheme, host, path⟩ := u
  match path with
  | [] =>
      refine ⟨fun h => ?_, fun h => h.elim⟩
      have hempty : host.bytes <:+ [] := h.2.2
      exact hhost (List.suffix_nil.mp hempty)
  | [p] =>
      refine ⟨fun _ => trivial, fun _ => ⟨⟨?_, ?_⟩, ?_⟩⟩
      · intro t ht
        exact (Option.some.inj ht).symm
      · intro t ht
        exact (Option.some.inj ht).symm
      · exact ⟨rfl, List.suffix_refl _⟩
  | p :: q :: path =>
      rw [agrees_iff (by simp [SourceUri.names])]
      exact ⟨fun h => ⟨h.1.1, h.1.2, h.2.1, h.2.2⟩, fun h => ⟨⟨h.1, h.2.1⟩, h.2.2.1, h.2.2.2⟩⟩

/-- The example of the source file. -/
def security : SourceUri where
  scheme := ascii "http"
  host := ⟨ascii "security.ubuntu.com", by decide, by decide⟩
  path := [⟨ascii "ubuntu", by decide, by decide⟩]

theorem match_own_security :
    (security.source [] (ascii "jammy-security") (ascii "main")).match_
      (ascii "security.ubuntu.com_ubuntu_dists_jammy-security_main_binary-amd64_Packages") = true :=
  (match_own_iff security [] ⟨ascii "jammy-security", by decide, by decide⟩
    ⟨ascii "main", by decide, by decide⟩ (by decide)).mpr trivial

/-- `http://deb.example.org/`. -/
def bareHost : SourceUri where
  scheme := ascii "http"
  host := ⟨ascii "deb.example.org", by decide, by decide⟩
  path := []

/-- Without a path, a source does not get its own list file. -/
theorem match_misses_own :
    (bareHost.source [] (ascii "stable") (ascii "main")).match_
      (ascii "deb.example.org_dists_stable_main_binary-amd64_Packages") = false
    ∧ ¬ ∀ (u : SourceUri) (table : Table) (suite component : Part), u.host.bytes ≠ [] →
        (∀ p ∈ u.path, p.bytes ≠ []) → suite.bytes ≠ [] → component.bytes ≠ [] →
        (u.source table suite.bytes component.bytes).match_ (u.listFile suite component) = true := by
  have hmissed : (bareHost.source [] (ascii "stable") (ascii "main")).match_
      (ascii "deb.example.org_dists_stable_main_binary-amd64_Packages") = false := by decide
  refine ⟨hmissed, fun h => ?_⟩
  have hown : (bareHost.source [] (ascii "stable") (ascii "main")).match_
      (ascii "deb.example.org_dists_stable_main_binary-amd64_Packages") = true :=
    h bareHost [] ⟨ascii "stable", by decide, by decide⟩ ⟨ascii "main", by decide, by decide⟩
      (by decide) (fun p hp => nomatch hp) (by decide) (by decide)
  rw [hmissed] at hown
  cases hown

end LinuxUtil.Apt
