/-
The URLs that `urlparse` takes.

What should be taken is a scheme, a host and, if they are there, a port and a path.  The
comparison stops at the end of the scheme that was given, so every beginning of `http`
passes as `http`, the empty one too; and the loop over the port stops at a slash only, so
a port at the end is refused.  Everything else is as it should be.
-/
import LinuxUtil.Apt.Url
import LinuxUtil.Httpd.Reader
import LinuxUtil.Lib.Words

namespace LinuxUtil.Apt

open CString
open Httpd (decimal isdigit)

/-! ### The grammar -/

/-- The characters of a host. -/
def hostChar (c : UInt8) : Bool := c ≠ 47 && c ≠ 58

def IsHost (host : List UInt8) : Prop := host ≠ [] ∧ ∀ c ∈ host, hostChar c

def IsPort (digits : List UInt8) : Prop := (∀ c ∈ digits, isdigit c) ∧ decimal digits ≤ 65535

inductive PortText : List UInt8 → Prop
  | absent : PortText []
  | given {digits : List UInt8} : IsPort digits → PortText (58 :: digits)

inductive PathText : List UInt8 → Prop
  | absent : PathText []
  | given (path : List UInt8) : PathText (47 :: path)

/-- What may be behind the scheme. -/
def AddressText (rest : List UInt8) : Prop :=
  ∃ host port path, IsHost host ∧ PortText port ∧ PathText path ∧ rest = host ++ (port ++ path)

/-- The URLs of a scheme. -/
def UrlText (scheme url : List UInt8) : Prop :=
  ∃ rest, AddressText rest ∧ url = scheme ++ (ascii "://" ++ rest)

/-- A host and a port, and no path. -/
def PortLast (rest : List UInt8) : Prop :=
  ∃ host digits, IsHost host ∧ IsPort digits ∧ rest = host ++ 58 :: digits

/-! ### The host -/

theorem hostLoop_eq (s : List UInt8) : hostLoop s = s.dropWhile hostChar := by
  induction s with
  | nil => rfl
  | cons c s ih =>
      rw [hostLoop]
      by_cases hc : c = 47 ∨ c = 58
      · rw [if_pos hc, List.dropWhile_cons_of_neg]
        rcases hc with rfl | rfl <;> simp [hostChar]
      · rw [if_neg hc, List.dropWhile_cons_of_pos, ih]
        simpa [hostChar] using hc

/-- Where a host ends. -/
def Stop (rest : List UInt8) : Prop := ∀ c ∈ rest.head?, hostChar c = false

theorem stop_cons {c : UInt8} (hc : hostChar c = false) (s : List UInt8) : Stop (c :: s) := by
  rintro c' ⟨⟩
  exact hc

theorem stop_hostLoop (s : List UInt8) : Stop (hostLoop s) := by
  intro c hc
  have hhead := List.head?_dropWhile_not hostChar s
  rw [← hostLoop_eq, Option.mem_def.mp hc] at hhead
  exact hhead

theorem PortText.stop {port path : List UInt8} (hport : PortText port) (hpath : PathText path) :
    Stop (port ++ path) := by
  cases hport with
  | absent =>
      cases hpath with
      | absent => exact nofun
      | given path => exact stop_cons rfl path
  | given _ => exact stop_cons rfl _

variable {host rest : List UInt8}

theorem addressText_iff (hhost : ∀ c ∈ host, hostChar c) (hstop : Stop rest) :
    AddressText (host ++ rest) ↔
      host ≠ [] ∧ ∃ port path, PortText port ∧ PathText path ∧ rest = port ++ path := by
  have hsplit := Words.run_append hhost hstop
  constructor
  · rintro ⟨host', port, path, ⟨hne, hhost'⟩, hport, hpath, heq⟩
    have hsplit' := Words.run_append hhost' (hport.stop hpath)
    rw [← heq] at hsplit'
    obtain rfl := hsplit.1.symm.trans hsplit'.1
    exact ⟨hne, port, path, hport, hpath, hsplit.2.symm.trans hsplit'.2⟩
  · rintro ⟨hne, port, path, hport, hpath, rfl⟩
    exact ⟨host, port, path, ⟨hne, hhost⟩, hport, hpath, rfl⟩

theorem portLast_iff (hhost : ∀ c ∈ host, hostChar c) (hstop : Stop rest) :
    PortLast (host ++ rest) ↔ host ≠ [] ∧ ∃ digits, IsPort digits ∧ rest = 58 :: digits := by
  have hsplit := Words.run_append hhost hstop
  constructor
  · rintro ⟨host', digits, ⟨hne, hhost'⟩, hdigits, heq⟩
    have hsplit' := Words.run_append hhost' (stop_cons rfl digits : Stop (58 :: digits))
    rw [← heq] at hsplit'
    obtain rfl := hsplit.1.symm.trans hsplit'.1
    exact ⟨hne, digits, hdigits, hsplit.2.symm.trans hsplit'.2⟩
  · rintro ⟨hne, digits, hdigits, rfl⟩
    exact ⟨host, digits, ⟨hne, hhost⟩, hdigits, rfl⟩

/-! ### The port -/

/-- The value of digits behind others. -/
def decimalFrom (n : Nat) (digits : List UInt8) : Nat :=
  digits.foldl (fun n ch => 10 * n + (ch.toNat - 48)) n

theorem le_decimalFrom (digits : List UInt8) : ∀ n, n ≤ decimalFrom n digits := by
  induction digits with
  | nil => exact fun n => Nat.le_refl n
  | cons c digits ih => exact fun n => Nat.le_trans (by omega) (ih (10 * n + (c.toNat - 48)))

theorem portLoop_cons {c : UInt8} (hc : isdigit c) (port : Nat) (s : List UInt8) :
    portLoop port (c :: s) =
      if 10 * port + (c.toNat - 48) > 65535 then .error "port number too large\n"
      else portLoop (10 * port + (c.toNat - 48)) s := by
  simp only [isdigit, Bool.and_eq_true, decide_eq_true_eq] at hc
  rw [portLoop, if_neg (by rintro rfl; exact absurd hc.1 (by decide)),
    if_neg (not_or.mpr ⟨UInt8.not_lt.mpr hc.2, UInt8.not_lt.mpr hc.1⟩), Nat.mul_comm port 10]

/-- Digits in front of a slash. -/
theorem portLoop_digits (path : List UInt8) :
    ∀ {digits : List UInt8} {port : Nat}, (∀ c ∈ digits, isdigit c) →
      decimalFrom port digits ≤ 65535 →
      portLoop port (digits ++ 47 :: path) = .ok (decimalFrom port digits, 47 :: path) := by
  intro digits
  induction digits with
  | nil => exact fun _ _ => rfl
  | cons c digits ih =>
      intro port hdigits hle
      obtain ⟨hc, hdigits⟩ := List.forall_mem_cons.mp hdigits
      have hfits := Nat.le_trans (le_decimalFrom digits (10 * port + (c.toNat - 48))) hle
      rw [List.cons_append, portLoop_cons hc, if_neg (Nat.not_lt.mpr hfits)]
      exact ih hdigits hle

theorem portLoop_ok :
    ∀ {s : List UInt8} {port value : Nat} {hend : List UInt8}, port ≤ 65535 →
      portLoop port s = .ok (value, hend) →
      ∃ digits path, s = digits ++ 47 :: path ∧ hend = 47 :: path ∧ (∀ c ∈ digits, isdigit c) ∧
        decimalFrom port digits ≤ 65535 := by
  intro s
  induction s with
  | nil => exact fun _ h => by cases h
  | cons c s ih =>
      intro port value hend hport h
      by_cases hslash : c = 47
      · rw [portLoop, if_pos hslash] at h
        obtain ⟨-, rfl⟩ := Prod.mk.inj (Except.ok.inj h)
        exact ⟨[], s, by rw [hslash]; rfl, by rw [hslash], nofun, hport⟩
      · by_cases hc : isdigit c
        · rw [portLoop_cons hc] at h
          by_cases hlarge : 10 * port + (c.toNat - 48) > 65535
          · rw [if_pos hlarge] at h
            cases h
          · rw [if_neg hlarge] at h
            obtain ⟨digits, path, rfl, rfl, hdigits, hle⟩ := ih (Nat.le_of_not_lt hlarge) h
            exact ⟨c :: digits, path, rfl, rfl, List.forall_mem_cons.mpr ⟨hc, hdigits⟩, hle⟩
        · have hno : c > 57 ∨ c < 48 := by
            simp only [isdigit, Bool.and_eq_true, decide_eq_true_eq, not_and_or, UInt8.not_le] at hc
            exact hc.symm
          rw [portLoop, if_neg hslash, if_pos hno] at h
          cases h

/-! ### Behind the scheme -/

@[simp] theorem defaultPort_proto (result : UrlParse) : (defaultPort result).proto = result.proto := by
  unfold defaultPort
  split
  · split
    · rfl
    · split <;> rfl
  · rfl

@[simp] theorem defaultPort_host (result : UrlParse) : (defaultPort result).host = result.host := by
  unfold defaultPort
  split
  · split
    · rfl
    · split <;> rfl
  · rfl

theorem checkHost_spec (result : UrlParse) :
    ((checkHost result).ret = 0 ↔ result.host.begin < result.host.end_) ∧
      (checkHost result).result = result := by
  unfold checkHost
  by_cases hempty : result.host.end_ ≤ result.host.begin
  · rw [if_pos hempty]
    exact ⟨⟨nofun, fun h => absurd hempty (UInt32.not_le.mpr h)⟩, rfl⟩
  · rw [if_neg hempty]
    exact ⟨⟨fun _ => UInt32.not_le.mp hempty, fun _ => rfl⟩, rfl⟩

theorem urlOffset_lt {url rest : List UInt8} (hlen : url.length < 2 ^ 31)
    (hle : (host ++ rest).length ≤ url.length) :
    urlOffset url (host ++ rest) < urlOffset url rest ↔ host ≠ [] := by
  have hpos : host ≠ [] ↔ 0 < host.length := List.length_pos_iff.symm
  have hmod : ∀ n, n ≤ url.length → n % 2 ^ 32 = n := fun n hn => Nat.mod_eq_of_lt (by omega)
  rw [List.length_append] at hle
  rw [hpos, UInt32.lt_iff_toNat_lt, urlOffset, urlOffset, UInt32.toNat_ofNat', UInt32.toNat_ofNat',
    hmod _ (by omega), hmod _ (by omega), List.length_append]
  omega

/-- The call returns, and it returns 0 exactly if `p` holds. -/
def Decides (call : Except Fault UrlReply) (proto : Nat) (p : Prop) : Prop :=
  ∃ reply, call = .ok reply ∧ reply.result.proto = proto ∧ (reply.ret = 0 ↔ p)

theorem decides_checkHost (result : UrlParse) :
    Decides (.ok (checkHost result)) result.proto (result.host.begin < result.host.end_) :=
  ⟨checkHost result, rfl, by rw [(checkHost_spec result).2], (checkHost_spec result).1⟩

theorem decides_error (result : UrlParse) (text : String) {p : Prop} (hp : ¬ p) :
    Decides (.ok (urlError result text)) result.proto p :=
  ⟨urlError result text, rfl, rfl, ⟨nofun, fun h => absurd h hp⟩⟩

theorem parsePath_nil (url : List UInt8) (result : UrlParse) :
    Decides (parsePath url result []) result.proto (result.host.begin < urlOffset url []) :=
  decides_checkHost _

/-- The path is cut at its last slash. -/
theorem parsePath_slash_eq (url path : List UInt8) (result : UrlParse) :
    ∃ dir file, 47 :: path = dir ++ 47 :: file ∧ 47 ∉ file ∧
      parsePath url result (47 :: path) = .ok (checkHost { result with
        path := ⟨urlOffset url (47 :: path), UInt32.ofNat url.length⟩
        ofile := ⟨urlOffset url (47 :: file) + 1, UInt32.ofNat url.length⟩ }) := by
  obtain ⟨last, hlast⟩ := strrchr_isSome (List.mem_cons_self : (47 : UInt8) ∈ 47 :: path)
  obtain ⟨dir, file, hpath, rfl, hfile⟩ := strrchr_last (by decide) hlast
  refine ⟨dir, file, hpath, hfile, ?_⟩
  rw [parsePath, hlast]
  rfl

theorem parsePath_slash (url path : List UInt8) (result : UrlParse) :
    Decides (parsePath url result (47 :: path)) result.proto
      (result.host.begin < result.host.end_) := by
  obtain ⟨-, file, -, -, heq⟩ := parsePath_slash_eq url path result
  rw [heq]
  exact decides_checkHost _

/-- What is taken behind the scheme. -/
def Taken (rest : List UInt8) : Prop := AddressText rest ∧ ¬ PortLast rest

theorem taken_slash (hhost : ∀ c ∈ host, hostChar c) (path : List UInt8) :
    Taken (host ++ 47 :: path) ↔ host ≠ [] := by
  have hstop : Stop (47 :: path) := stop_cons rfl path
  rw [Taken, addressText_iff hhost hstop, portLast_iff hhost hstop]
  exact ⟨fun h => h.1.1, fun hne => ⟨⟨hne, [], 47 :: path, .absent, .given path, rfl⟩, by simp⟩⟩

theorem taken_nil (hhost : ∀ c ∈ host, hostChar c) : Taken (host ++ []) ↔ host ≠ [] := by
  have hstop : Stop [] := nofun
  rw [Taken, addressText_iff hhost hstop, portLast_iff hhost hstop]
  exact ⟨fun h => h.1.1, fun hne => ⟨⟨hne, [], [], .absent, .absent, rfl⟩, by simp⟩⟩

theorem taken_port (hhost : ∀ c ∈ host, hostChar c) (s : List UInt8) :
    Taken (host ++ 58 :: s) ↔ host ≠ [] ∧ ∃ digits path, IsPort digits ∧ s = digits ++ 47 :: path := by
  have hstop : Stop (58 :: s) := stop_cons rfl s
  rw [Taken, addressText_iff hhost hstop, portLast_iff hhost hstop]
  constructor
  · rintro ⟨⟨hne, port, path, hport, hpath, heq⟩, hlast⟩
    refine ⟨hne, ?_⟩
    cases hport with
    | absent => cases hpath <;> cases heq
    | given hdigits =>
        obtain rfl := (List.cons.inj heq).2
        cases hpath with
        | absent => exact absurd ⟨hne, _, hdigits, congrArg _ (List.append_nil _)⟩ hlast
        | given path => exact ⟨_, path, hdigits, rfl⟩
  · rintro ⟨hne, digits, path, hdigits, rfl⟩
    refine ⟨⟨hne, 58 :: digits, 47 :: path, .given hdigits, .given path, rfl⟩, ?_⟩
    rintro ⟨-, digits', hdigits', heq⟩
    -- a slash is no digit
    have hslash : (47 : UInt8) ∈ digits' := by
      rw [← (List.cons.inj heq).2]
      simp
    exact absurd (hdigits'.1 47 hslash) (by decide)

/-- **What is behind the scheme**: a host, and then nothing, a path, a port with a path, or what is not a
port. -/
theorem parseHost_cases (url : List UInt8) (result : UrlParse) (rest : List UInt8) :
    ∃ host behind, rest = host ++ behind ∧ (∀ c ∈ host, hostChar c) ∧
      (behind = [] ∧ parseHost url result rest =
          parsePath url (defaultPort { result with host.begin := urlOffset url rest }) [] ∨
        (∃ path, behind = 47 :: path ∧ parseHost url result rest =
          parsePath url (defaultPort { result with
            host := ⟨urlOffset url rest, urlOffset url behind⟩ }) (47 :: path)) ∨
        (∃ digits path, IsPort digits ∧ behind = 58 :: (digits ++ 47 :: path) ∧
          parseHost url result rest =
            parsePath url (defaultPort { result with
              host := ⟨urlOffset url rest, urlOffset url behind⟩
              port := UInt16.ofNat (decimal digits) }) (47 :: path)) ∨
        ∃ s result' text, behind = 58 :: s ∧ result'.proto = result.proto ∧
          (¬ ∃ digits path, IsPort digits ∧ s = digits ++ 47 :: path) ∧
          parseHost url result rest = .ok (urlError result' text)) := by
  refine ⟨rest.takeWhile hostChar, hostLoop rest, ?_, fun c hc => List.mem_takeWhile_imp hc, ?_⟩
  · rw [hostLoop_eq, List.takeWhile_append_dropWhile]
  · unfold parseHost
    cases hloop : hostLoop rest with
    | nil => exact .inl ⟨rfl, rfl⟩
    | cons c hend =>
        have hc : c = 47 ∨ c = 58 := by
          have hstop := stop_hostLoop rest c (by rw [hloop]; exact rfl)
          simp only [hostChar, Bool.and_eq_false_iff, decide_eq_false_iff_not, not_not] at hstop
          exact hstop
        right
        rcases hc with rfl | rfl
        · exact .inl ⟨hend, rfl, rfl⟩
        · right
          dsimp only
          rw [if_neg (by decide)]
          cases hport : portLoop 0 hend with
          | error text =>
              refine .inr ⟨hend, { result with
                host := ⟨urlOffset url rest, urlOffset url (58 :: hend)⟩ }, text, rfl, rfl, ?_, rfl⟩
              rintro ⟨digits, path, ⟨hdigits, hle⟩, rfl⟩
              rw [portLoop_digits path hdigits hle] at hport
              cases hport
          | ok res =>
              obtain ⟨port, hend'⟩ := res
              obtain ⟨digits, path, rfl, rfl, hdigits, hle⟩ := portLoop_ok (by decide) hport
              rw [portLoop_digits path hdigits hle] at hport
              obtain ⟨rfl, -⟩ := Prod.mk.inj (Except.ok.inj hport)
              exact .inl ⟨digits, path, ⟨hdigits, hle⟩, rfl, rfl⟩

theorem parseHost_spec {url : List UInt8} (hlen : url.length < 2 ^ 31) (result : UrlParse)
    (hle : rest.length ≤ url.length) :
    Decides (parseHost url result rest) result.proto (Taken rest) := by
  obtain ⟨host, behind, hrest, hhost, hcases⟩ := parseHost_cases url result rest
  have hlt := urlOffset_lt hlen (hrest ▸ hle)
  rw [← hrest] at hlt
  rcases hcases with ⟨rfl, heq⟩ | ⟨path, rfl, heq⟩ | ⟨digits, path, hdigits, rfl, heq⟩ |
    ⟨s, result', text, rfl, hproto, hno, heq⟩
  · have htaken := taken_nil hhost
    rw [← hrest] at htaken
    have hpath := parsePath_nil url (defaultPort { result with host.begin := urlOffset url rest })
    rw [defaultPort_host, hlt, ← htaken, defaultPort_proto, ← heq] at hpath
    exact hpath
  · have htaken := taken_slash hhost path
    rw [← hrest] at htaken
    have hpath := parsePath_slash url path (defaultPort { result with
      host := ⟨urlOffset url rest, urlOffset url (47 :: path)⟩ })
    rw [defaultPort_host, hlt, ← htaken, defaultPort_proto, ← heq] at hpath
    exact hpath
  · have htaken := taken_port hhost (digits ++ 47 :: path)
    rw [← hrest] at htaken
    have hpath := parsePath_slash url path (defaultPort { result with
      host := ⟨urlOffset url rest, urlOffset url (58 :: (digits ++ 47 :: path))⟩
      port := UInt16.ofNat (decimal digits) })
    have hiff : host ≠ [] ↔ Taken rest :=
      ⟨fun hne => htaken.mpr ⟨hne, digits, path, hdigits, rfl⟩, fun h => (htaken.mp h).1⟩
    rw [defaultPort_host, hlt, hiff, defaultPort_proto, ← heq] at hpath
    exact hpath
  · have htaken := taken_port hhost s
    rw [← hrest] at htaken
    rw [heq, ← hproto]
    exact decides_error _ text fun h => hno (htaken.mp h).2

/-! ### The scheme -/

/-- The number that a beginning of a scheme gets. -/
def protoOf (scheme : List UInt8) : Nat :=
  if scheme <+: ascii "http" then 1 else if scheme <+: ascii "https" then 2 else 0

theorem schemeLoop_eq {scheme : List UInt8} (hscheme : 0 ∉ scheme) (rest : List UInt8) :
    schemeLoop (scheme ++ rest) scheme.length = protoOf scheme := by
  have hhttp := strncmp_eq_zero_iff rest (a := ascii "http") hscheme
  have hhttps := strncmp_eq_zero_iff rest (a := ascii "https") hscheme
  unfold schemeLoop schemes protoOf
  by_cases h1 : scheme <+: ascii "http"
  · rw [if_pos h1, List.find?_cons_of_pos (by simpa using hhttp.mpr h1)]
    rfl
  · rw [if_neg h1, List.find?_cons_of_neg (by simpa using mt hhttp.mp h1)]
    by_cases h2 : scheme <+: ascii "https"
    · rw [if_pos h2, List.find?_cons_of_pos (by simpa using hhttps.mpr h2)]
      rfl
    · rw [if_neg h2, List.find?_cons_of_neg (by simpa using mt hhttps.mp h2)]
      rfl

/-- A beginning of a scheme has no colon. -/
theorem colon_of_protoOf {scheme : List UInt8} (h : protoOf scheme ≠ 0) : 58 ∉ scheme := by
  have hpre : scheme <+: ascii "https" := by
    unfold protoOf at h
    by_cases h1 : scheme <+: ascii "http"
    · exact h1.trans (by decide)
    · rw [if_neg h1] at h
      by_contra h2
      exact h (if_neg h2)
  exact fun hc => absurd (hpre.subset hc) (by decide)

theorem strstr_scheme {scheme rest : List UInt8} (h : protoOf scheme ≠ 0) :
    strstr (scheme ++ (ascii "://" ++ rest)) (ascii "://") = some (ascii "://" ++ rest) :=
  strstr_append rest (colon_of_protoOf h)

/-- A scheme is what is in front of the first separator. -/
theorem scheme_unique {scheme pre rest rest' : List UInt8} (h : protoOf scheme ≠ 0)
    (heq : scheme ++ (ascii "://" ++ rest) = pre ++ (ascii "://" ++ rest'))
    (hsep : strstr (pre ++ (ascii "://" ++ rest')) (ascii "://") = some (ascii "://" ++ rest')) :
    scheme = pre ∧ rest = rest' := by
  rw [← heq, strstr_scheme h] at hsep
  have hrest := Option.some.inj hsep
  rw [hrest] at heq
  exact ⟨List.append_cancel_right heq, List.append_cancel_left hrest⟩

/-- **The scheme is cut off in front of the first separator**, and then the host is parsed. -/
theorem urlparse_cases {url : List UInt8} (hnul : 0 ∉ url) (result : UrlParse) :
    (∃ result' text, urlparse url result = .ok (urlError result' text) ∧
        ∀ scheme rest, protoOf scheme ≠ 0 → url ≠ scheme ++ (ascii "://" ++ rest)) ∨
      ∃ scheme rest, url = scheme ++ (ascii "://" ++ rest) ∧
        strstr url (ascii "://") = some (ascii "://" ++ rest) ∧ protoOf scheme ≠ 0 ∧
        urlparse url result = parseHost url { result with proto := protoOf scheme, port := 0 } rest := by
  unfold urlparse
  cases hsep : strstr url (ascii "://") with
  | none =>
      refine .inl ⟨_, _, rfl, fun scheme rest hproto heq => ?_⟩
      rw [heq, strstr_scheme hproto] at hsep
      cases hsep
  | some sep =>
      obtain ⟨pre, hurl, rest, rfl⟩ := strstr_spec hsep
      have hpre : 0 ∉ pre := fun h => hnul (hurl ▸ List.mem_append_left _ h)
      have hloop : schemeLoop url (url.length - (ascii "://" ++ rest).length) = protoOf pre := by
        rw [hurl, List.length_append, Nat.add_sub_cancel]
        exact schemeLoop_eq hpre _
      dsimp only
      rw [hloop]
      by_cases hzero : protoOf pre = 0
      · rw [if_pos hzero]
        refine .inl ⟨_, _, rfl, fun scheme rest' hproto heq => ?_⟩
        have hunique := scheme_unique hproto (heq.symm.trans hurl) (hurl ▸ hsep)
        exact hproto (hunique.1 ▸ hzero)
      · rw [if_neg hzero]
        exact .inr ⟨pre, rest, hurl, rfl, hzero, rfl⟩

/-- **What `urlparse` does**: it takes every URL of a beginning of a scheme, except those that end with
their port. -/
theorem urlparse_spec {url : List UInt8} (hnul : 0 ∉ url) (hlen : url.length < 2 ^ 31)
    (result : UrlParse) :
    ∃ reply, urlparse url result = .ok reply ∧
      (reply.ret = 0 → ∃ scheme rest, protoOf scheme ≠ 0 ∧ url = scheme ++ (ascii "://" ++ rest) ∧
        Taken rest) ∧
      ∀ scheme rest, protoOf scheme ≠ 0 → url = scheme ++ (ascii "://" ++ rest) → Taken rest →
        reply.ret = 0 ∧ reply.result.proto = protoOf scheme := by
  rcases urlparse_cases hnul result with ⟨result', text, hok, hnone⟩ | ⟨pre, rest, hurl, hsep, hzero, hok⟩
  · exact ⟨_, hok, nofun, fun scheme rest hproto heq _ => absurd heq (hnone scheme rest hproto)⟩
  · have hle : rest.length ≤ url.length := by
      rw [hurl, List.length_append, List.length_append]
      omega
    obtain ⟨reply, hreply, hproto, hret⟩ :=
      parseHost_spec hlen { result with proto := protoOf pre, port := 0 } hle
    refine ⟨reply, hok.trans hreply, fun h => ⟨pre, rest, hzero, hurl, hret.mp h⟩, ?_⟩
    intro scheme rest' hne heq htaken
    obtain ⟨rfl, rfl⟩ := scheme_unique hne (heq.symm.trans hurl) (hurl ▸ hsep)
    exact ⟨hret.mpr htaken, hproto⟩

/-! ### URLs that are taken and refused -/

/-- `urlparse` takes the URLs of both schemes and nothing else, and it says which scheme it is. -/
def TakesUrls (url : List UInt8) : Prop :=
  ∀ result, ∃ reply, urlparse url result = .ok reply ∧
    (reply.ret = 0 ↔ UrlText (ascii "http") url ∨ UrlText (ascii "https") url) ∧
    (reply.ret = 0 → (UrlText (ascii "http") url → reply.result.proto = 1) ∧
      (UrlText (ascii "https") url → reply.result.proto = 2))

/-- Less than `http` is in front, and a host and what may follow it, but not a port at the end. -/
def SchemeCut (url : List UInt8) : Prop :=
  ∃ scheme rest, scheme <+: ascii "http" ∧ scheme ≠ ascii "http" ∧
    url = scheme ++ (ascii "://" ++ rest) ∧ Taken rest

/-- The port is the end. -/
def EndsInPort (url : List UInt8) : Prop :=
  ∃ scheme rest, (scheme = ascii "http" ∨ scheme = ascii "https") ∧
    url = scheme ++ (ascii "://" ++ rest) ∧ PortLast rest

theorem PortLast.addressText {rest : List UInt8} (h : PortLast rest) : AddressText rest := by
  obtain ⟨host, digits, hhost, hdigits, rfl⟩ := h
  exact ⟨host, 58 :: digits, [], hhost, .given hdigits, .absent, by rw [List.append_nil]⟩

theorem protoOf_eq {scheme : List UInt8} (h : protoOf scheme ≠ 0) :
    (scheme <+: ascii "http" ∧ scheme ≠ ascii "http") ∨ scheme = ascii "http" ∨
      scheme = ascii "https" := by
  by_cases h1 : scheme <+: ascii "http"
  · by_cases heq : scheme = ascii "http"
    · exact .inr (.inl heq)
    · exact .inl ⟨h1, heq⟩
  · unfold protoOf at h
    rw [if_neg h1] at h
    by_cases h2 : scheme <+: ascii "https"
    · rcases List.prefix_concat_iff.mp (show scheme <+: ascii "http" ++ [115] from h2) with heq | h2
      · exact .inr (.inr heq)
      · exact absurd h2 h1
    · exact absurd (if_neg h2) h

theorem protoOf_named {scheme : List UInt8} (h : scheme = ascii "http" ∨ scheme = ascii "https") :
    protoOf scheme ≠ 0 := by
  rcases h with rfl | rfl <;> decide

theorem SchemeCut.not_takesUrls {url : List UInt8} (hnul : 0 ∉ url) (hlen : url.length < 2 ^ 31)
    (h : SchemeCut url) : ¬ TakesUrls url := by
  obtain ⟨scheme, rest, hpre, hne, hurl, htaken⟩ := h
  intro htakes
  have hproto : protoOf scheme ≠ 0 := by
    rw [protoOf, if_pos hpre]
    decide
  obtain ⟨reply, hok, hiff, -⟩ := htakes ⟨0, ⟨0, 0⟩, ⟨0, 0⟩, ⟨0, 0⟩, 0⟩
  obtain ⟨reply', hok', -, hgood⟩ := urlparse_spec hnul hlen ⟨0, ⟨0, 0⟩, ⟨0, 0⟩, ⟨0, 0⟩, 0⟩
  obtain rfl := Except.ok.inj (hok.symm.trans hok')
  rcases hiff.mp (hgood scheme rest hproto hurl htaken).1 with ⟨rest', -, hurl'⟩ | ⟨rest', -, hurl'⟩
  · exact hne (scheme_unique hproto (hurl.symm.trans hurl') (strstr_scheme (protoOf_named (.inl rfl)))).1
  · have heq := (scheme_unique hproto (hurl.symm.trans hurl') (strstr_scheme (protoOf_named (.inr rfl)))).1
    rw [heq] at hpre
    exact absurd hpre (by decide)

theorem EndsInPort.not_takesUrls {url : List UInt8} (hnul : 0 ∉ url) (hlen : url.length < 2 ^ 31)
    (h : EndsInPort url) : ¬ TakesUrls url := by
  obtain ⟨scheme, rest, hor, hurl, hport⟩ := h
  intro htakes
  have htext : UrlText (ascii "http") url ∨ UrlText (ascii "https") url := by
    rcases hor with rfl | rfl
    · exact .inl ⟨rest, hport.addressText, hurl⟩
    · exact .inr ⟨rest, hport.addressText, hurl⟩
  obtain ⟨reply, hok, hiff, -⟩ := htakes ⟨0, ⟨0, 0⟩, ⟨0, 0⟩, ⟨0, 0⟩, 0⟩
  obtain ⟨reply', hok', hgood, -⟩ := urlparse_spec hnul hlen ⟨0, ⟨0, 0⟩, ⟨0, 0⟩, ⟨0, 0⟩, 0⟩
  obtain rfl := Except.ok.inj (hok.symm.trans hok')
  obtain ⟨scheme', rest', hproto, hurl', htaken⟩ := hgood (hiff.mpr htext)
  obtain ⟨-, rfl⟩ := scheme_unique (protoOf_named hor) (hurl.symm.trans hurl') (strstr_scheme hproto)
  exact htaken.2 hport

/-- **`urlparse` takes exactly the URLs**, but for those of less than `http`, which it takes, and those
that end with their port, which it refuses. -/
theorem takesUrls_iff {url : List UInt8} (hnul : 0 ∉ url) (hlen : url.length < 2 ^ 31) :
    TakesUrls url ↔ ¬ SchemeCut url ∧ ¬ EndsInPort url := by
  refine ⟨fun h => ⟨fun hcut => hcut.not_takesUrls hnul hlen h,
    fun hends => hends.not_takesUrls hnul hlen h⟩, ?_⟩
  rintro ⟨hcut, hends⟩ result
  obtain ⟨reply, hok, hret, hgood⟩ := urlparse_spec hnul hlen result
  have htext : ∀ {scheme}, scheme = ascii "http" ∨ scheme = ascii "https" → UrlText scheme url →
      reply.ret = 0 ∧ reply.result.proto = protoOf scheme := by
    rintro scheme hor ⟨rest, haddress, hurl⟩
    exact hgood scheme rest (protoOf_named hor) hurl
      ⟨haddress, fun hport => hends ⟨scheme, rest, hor, hurl, hport⟩⟩
  refine ⟨reply, hok, ⟨fun h => ?_, ?_⟩, fun _ => ⟨fun h => (htext (.inl rfl) h).2,
    fun h => (htext (.inr rfl) h).2⟩⟩
  · obtain ⟨scheme, rest, hproto, hurl, htaken⟩ := hret h
    rcases protoOf_eq hproto with ⟨hpre, hne⟩ | rfl | rfl
    · exact absurd ⟨scheme, rest, hpre, hne, hurl, htaken⟩ hcut
    · exact .inl ⟨rest, htaken.1, hurl⟩
    · exact .inr ⟨rest, htaken.1, hurl⟩
  · rintro (h | h)
    · exact (htext (.inl rfl) h).1
    · exact (htext (.inr rfl) h).1

/-- A URL with all its parts. -/
theorem takesUrls_full : TakesUrls (ascii "https://deb:8080/dists/") := by
  have hurl : ascii "https://deb:8080/dists/" =
      ascii "https" ++ (ascii "://" ++ ascii "deb:8080/dists/") := rfl
  refine (takesUrls_iff (by decide) (by decide)).mpr ⟨?_, ?_⟩
  · rintro ⟨scheme, rest, hpre, -, heq, -⟩
    have hproto : protoOf scheme ≠ 0 := by
      rw [protoOf, if_pos hpre]
      decide
    have hscheme := (scheme_unique hproto (heq.symm.trans hurl) (strstr_scheme (protoOf_named (.inr rfl)))).1
    rw [hscheme] at hpre
    exact absurd hpre (by decide)
  · rintro ⟨scheme, rest, hor, heq, hport⟩
    obtain ⟨-, rfl⟩ :=
      scheme_unique (protoOf_named hor) (heq.symm.trans hurl) (strstr_scheme (protoOf_named (.inr rfl)))
    have hstop : Stop (ascii ":8080/dists/") := stop_cons rfl (ascii "8080/dists/")
    obtain ⟨-, digits, ⟨hdigits, -⟩, htail⟩ :=
      (portLast_iff (show ∀ c ∈ ascii "deb", hostChar c from List.all_eq_true.mp rfl) hstop).mp hport
    rw [← (List.cons.inj htail).2] at hdigits
    exact absurd (hdigits 47 (by decide)) (by decide)

/-- A server on a port of its own is refused, unless the URL has a slash behind it. -/
theorem takesUrls_not_all :
    ¬ ∀ url : List UInt8, 0 ∉ url → url.length < 2 ^ 31 → TakesUrls url := by
  intro hall
  have hport : EndsInPort (ascii "http://localhost:8080") :=
    ⟨ascii "http", ascii "localhost:8080", .inl rfl, rfl, ascii "localhost", ascii "8080",
      ⟨by decide, List.all_eq_true.mp rfl⟩, ⟨List.all_eq_true.mp rfl, by decide⟩, rfl⟩
  exact hport.not_takesUrls (by decide) (by decide) (hall _ (by decide) (by decide))

end LinuxUtil.Apt
