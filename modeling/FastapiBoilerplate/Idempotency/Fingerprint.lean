import FastapiBoilerplate.Idempotency.Tenants

/-!
# Which requests have the same fingerprint

`request_fingerprint` hashes its five parts each behind its length, so the bytes that are hashed
determine the parts (`hashed_inj`). The parts are another matter. The path and the query are not the
ones of the ASGI scope but those of `request.url`, which Starlette builds as a text, scheme, host,
path and query one after the other, and takes apart again with `urlsplit`: the path as it arrives is
percent-decoded, and a `?` or a `#` in it ends the path of the URL. What `urlsplit` removes, tabs and
line ends, and what comes after a `#`, no fingerprint ever sees.

So two requests that differ are told apart exactly when what is left of them differs
(`hashed_ne_iff`), and always if neither has such a character where it matters (`Plain`).

`urlsplit` refuses some hosts. A request with one of those is never hashed, and the refusal is left
out here.
-/

namespace Idempotency

open Lib List Option

/-! ## The request's URL -/

inductive Scheme
  | http
  | https

def Scheme.text : Scheme → List Char
  | .http => "http".toList
  | .https => "https".toList

/-- An ASGI scope of type `http`: the path is decoded, the query is raw, and `host` is the value of
    the header, or of the server's address where there is none. -/
structure HttpScope where
  method : String
  scheme : Scheme := .http
  host : String
  path : String
  queryString : Bytes := []
  headers : RawHeaders := []
  received : List Received

/-- The characters that `urlsplit` takes out wherever they are. -/
def isUnsafe (c : Char) : Bool := c = '\t' || c = '\r' || c = '\n'

def isSchemeChar (c : Char) : Bool := c.isAlphanum || c = '+' || c = '-' || c = '.'

/-- What is left of a URL after its scheme. -/
def dropScheme (url : List Char) : List Char :=
  let (scheme, rest) := url.span (· ≠ ':')
  if rest ≠ [] ∧ scheme.head?.any Char.isAlpha ∧ scheme.all isSchemeChar then rest.tail else url

/-- `_splitnetloc`: what is left after the host. -/
def dropNetloc (url : List Char) : List Char :=
  if "//".toList.isPrefixOf url then
    (url.drop 2).dropWhile fun c => c ≠ '/' && c ≠ '?' && c ≠ '#'
  else url

/-- `urlsplit(url)`: the path and the query. -/
def urlsplit (url : List Char) : List Char × List Char :=
  let rest := dropNetloc (dropScheme (url.filter fun c => !isUnsafe c))
  let (path, query) := (rest.takeWhile (· ≠ '#')).span (· ≠ '?')
  (path, query.tail)

/-- `query_string.decode()`; none is `UnicodeDecodeError`. -/
def decodeQuery (query : Bytes) : Option String :=
  if query = [] then some "" else String.fromUTF8? ⟨query.toArray⟩

namespace HttpScope

/-- `str(request.url)`. -/
def url (scope : HttpScope) (query : String) : List Char :=
  scope.scheme.text ++ "://".toList ++ scope.host.toList ++ scope.path.toList ++
    if scope.queryString = [] then [] else '?' :: query.toList

/-- The path and the query of `request.url`. -/
def target (scope : HttpScope) : Option (String × String) :=
  (decodeQuery scope.queryString).map fun query =>
    let (path, query) := urlsplit (scope.url query)
    (String.ofList path, String.ofList query)

/-- `Request(scope)`, as far as the middleware asks it. -/
def request (scope : HttpScope) : Option HttpRequest :=
  scope.target.map fun (path, query) =>
    { method := scope.method, path, query, headers := scope.headers, received := scope.received }

end HttpScope

/-! ## What is hashed -/

/-- The parts, each behind its length. -/
def framed (parts : List Bytes) : Bytes :=
  (parts.map fun part => encode (toString part.length) ++ [0] ++ part).flatten

/-- The bytes that `request_fingerprint` hashes. -/
def hashed (q : HttpRequest) (body : Bytes) : Bytes :=
  framed [encode (q.method.map Char.toUpper), encode q.path, encode q.query,
    encode ((q.header "content-type").getD ""), body]

/-- The middleware takes the scope's request, with this body, to the store. -/
structure Handles (policy : RequestPolicy) (scope : HttpScope) (q : HttpRequest) (body : Bytes) :
    Prop where
  request : scope.request = some q
  keyed : Keyed policy q
  buffered : bufferRequest policy.maxRequestBodyBytes [] q.received = some (body, false)

theorem fingerprint_of_handles (sha256 : Bytes → BitVec 256) {policy : RequestPolicy}
    {scope : HttpScope} {q : HttpRequest} {body : Bytes} (h : Handles policy scope q body) :
    ∃ r, prologue sha256 policy q = .keyed r ∧
      r.fingerprint = hexdigest (sha256 (hashed q body)) := by
  obtain ⟨r, hr⟩ := prologue_of_keyed sha256 h.keyed
  obtain ⟨-, -, -, body', hbody, hprint⟩ := keyed_of_prologue hr
  cases h.buffered.symm.trans hbody
  exact ⟨r, hr, hprint⟩

/-! ## The bytes determine the parts -/

theorem toList_loop (bytes : ByteArray) (i : ℕ) (acc : List UInt8) :
    ByteArray.toList.loop bytes i acc = acc.reverse ++ bytes.data.toList.drop i := by
  fun_induction ByteArray.toList.loop bytes i acc with
  | case1 i acc hlt ih =>
    have hlt' : i < bytes.data.toList.length := hlt
    have hget : bytes.get! i = bytes.data.toList[i] := by
      show bytes.data[i]! = _
      rw [getElem!_pos bytes.data i hlt, Array.getElem_toList]
    rw [ih, reverse_cons, append_assoc, singleton_append, hget,
      drop_eq_getElem_cons hlt']
  | case2 i acc hle =>
    rw [drop_of_length_le (Nat.le_of_not_lt hle), append_nil]

theorem encode_eq (s : String) : encode s = s.toByteArray.data.toList :=
  toList_loop s.toUTF8 0 []

theorem encode_injective : Function.Injective encode := by
  intro a b h
  rw [encode_eq, encode_eq] at h
  exact String.toByteArray_inj.mp (ByteArray.ext (Array.toList_inj.mp h))

/-- A length is written in digits, and none of them is the byte that ends it. -/
theorem zero_notMem_encode_toString (n : ℕ) : (0 : UInt8) ∉ encode (toString n) := by
  have hdigit : ∀ c : Char, c.isDigit = true → (0 : UInt8) ∉ String.utf8EncodeChar c := by
    intro c hc
    have hval : 48 ≤ c.val ∧ c.val ≤ 57 := by
      simpa [Char.isDigit] using hc
    have hlower : 48 ≤ c.val.toNat := UInt32.le_iff_toNat_le.mp hval.1
    have hupper : c.val.toNat ≤ 57 := UInt32.le_iff_toNat_le.mp hval.2
    rw [String.utf8EncodeChar, if_pos (by omega), mem_singleton]
    intro hzero
    have hnat := congrArg UInt8.toNat hzero
    rw [UInt8.toNat_ofNat'] at hnat
    change 0 = c.val.toNat % 256 at hnat
    omega
  have hdigits : (toString n : String) = String.ofList (Nat.toDigits 10 n) := rfl
  rw [encode_eq, hdigits, String.toByteArray_ofList]
  show 0 ∉ ((Nat.toDigits 10 n).flatMap String.utf8EncodeChar).toByteArray.data.toList
  rw [data_toByteArray]
  intro hmem
  obtain ⟨c, hc, hzero⟩ := mem_flatMap.mp hmem
  exact hdigit c (Nat.isDigit_of_mem_toDigits (by decide) (by decide) hc) hzero

theorem toString_injective {m n : ℕ} (h : toString m = toString n) : m = n := by
  have hdigits : Nat.toDigits 10 m = Nat.toDigits 10 n := String.ofList_injective h
  apply decimal_injective
  rw [decimal, decimal, hdigits]

theorem framed_inj {parts₁ parts₂ : List Bytes} (hlength : parts₁.length = parts₂.length)
    (h : framed parts₁ = framed parts₂) : parts₁ = parts₂ := by
  induction parts₁ generalizing parts₂ with
  | nil => exact (eq_nil_of_length_eq_zero hlength.symm).symm
  | cons part₁ parts₁ ih =>
    cases parts₂ with
    | nil => cases hlength
    | cons =>
      have hcons : ∀ (part : Bytes) (parts : List Bytes), framed (part :: parts) =
          encode (toString part.length) ++ 0 :: (part ++ framed parts) := by
        intro part parts
        rw [framed, map_cons, flatten_cons, append_assoc, append_assoc]
        rfl
      rw [hcons, hcons] at h
      obtain ⟨hsize, hrest⟩ := append_cons_inj (zero_notMem_encode_toString _)
        (zero_notMem_encode_toString _) h
      have hsize' := toString_injective (encode_injective hsize)
      obtain ⟨rfl, hparts⟩ := append_inj hrest hsize'
      rw [ih (Nat.succ.inj hlength) hparts]

variable {q₁ q₂ : HttpRequest} {body₁ body₂ : Bytes}

theorem hashed_inj : hashed q₁ body₁ = hashed q₂ body₂ ↔
    q₁.method.map Char.toUpper = q₂.method.map Char.toUpper ∧
      (q₁.path = q₂.path ∧ q₁.query = q₂.query) ∧
      (q₁.header "content-type").getD "" = (q₂.header "content-type").getD "" ∧ body₁ = body₂ := by
  constructor
  · intro h
    unfold hashed at h
    have hparts := framed_inj ?_ h
    simp only [List.cons.injEq, and_true] at hparts
    obtain ⟨hmethod, hpath, hquery, htype, hbody⟩ := hparts
    exact ⟨encode_injective hmethod, ⟨encode_injective hpath, encode_injective hquery⟩,
      encode_injective htype, hbody⟩
    rfl
  · rintro ⟨hmethod, ⟨hpath, hquery⟩, htype, rfl⟩
    rw [hashed, hashed, hmethod, hpath, hquery, htype]

/-! ## Which requests are told apart -/

namespace HttpScope

/-- `request.headers.get("content-type")`. -/
def contentType (scope : HttpScope) : Option String :=
  (scope.headers.getRaw "content-type").map decodeLatin1

/-- Two requests that are not the same one. -/
def Differ (scope₁ scope₂ : HttpScope) (body₁ body₂ : Bytes) : Prop :=
  scope₁.method.map Char.toUpper ≠ scope₂.method.map Char.toUpper ∨ scope₁.path ≠ scope₂.path ∨
    scope₁.queryString ≠ scope₂.queryString ∨ scope₁.contentType ≠ scope₂.contentType ∨
    body₁ ≠ body₂

/-- They differ in what is left of them: in the path or the query as `urlsplit` finds them in the
    text of the URL, or otherwise than in having no Content-Type and an empty one. -/
def ToldApart (scope₁ scope₂ : HttpScope) (body₁ body₂ : Bytes) : Prop :=
  scope₁.method.map Char.toUpper ≠ scope₂.method.map Char.toUpper ∨
    scope₁.target ≠ scope₂.target ∨
    scope₁.contentType.getD "" ≠ scope₂.contentType.getD "" ∨ body₁ ≠ body₂

/-- Nothing in the scope is a delimiter of another part of the URL, or removed from it. -/
structure Plain (scope : HttpScope) : Prop where
  host : ∀ c ∈ scope.host.toList, (c ≠ '/' && c ≠ '?' && c ≠ '#') = true
  rooted : scope.path.toList.head? = some '/'
  path : ∀ c ∈ scope.path.toList, c ≠ '?' ∧ c ≠ '#' ∧ isUnsafe c = false
  query : ∀ query, decodeQuery scope.queryString = some query →
    ∀ c ∈ query.toList, c ≠ '#' ∧ isUnsafe c = false
  contentType : scope.contentType ≠ some ""

end HttpScope

theorem dropScheme_url (scheme : Scheme) (rest : List Char) :
    dropScheme (scheme.text ++ "://".toList ++ rest) = "//".toList ++ rest := by
  cases scheme <;> rfl

theorem dropNetloc_of_host {host rest : List Char}
    (hhost : ∀ c ∈ host, (c ≠ '/' && c ≠ '?' && c ≠ '#') = true) (hrest : rest.head? = some '/') :
    dropNetloc ("//".toList ++ (host ++ rest)) = rest := by
  show (host ++ rest).dropWhile (fun c => c ≠ '/' && c ≠ '?' && c ≠ '#') = rest
  rw [dropWhile_append_of_pos hhost]
  cases rest with
  | nil => rfl
  | cons =>
    cases hrest
    rfl

theorem filter_of_safe {text : List Char} (h : ∀ c ∈ text, isUnsafe c = false) :
    text.filter (fun c => !isUnsafe c) = text := by
  apply filter_eq_self.mpr
  intro c hc
  rw [h c hc]
  rfl

/-- A plain path and query are found where they were put. -/
theorem urlsplit_of_plain (scheme : Scheme) {host path query tail : List Char}
    (hhost : ∀ c ∈ host, (c ≠ '/' && c ≠ '?' && c ≠ '#') = true) (hrooted : path.head? = some '/')
    (hpath : ∀ c ∈ path, c ≠ '?' ∧ c ≠ '#' ∧ isUnsafe c = false)
    (hquery : ∀ c ∈ query, c ≠ '#' ∧ isUnsafe c = false)
    (htail : tail = [] ∧ query = [] ∨ tail = '?' :: query) :
    urlsplit (scheme.text ++ "://".toList ++ host ++ path ++ tail) = (path, query) := by
  have htails : ∀ c ∈ tail, c ≠ '#' ∧ isUnsafe c = false := by
    rcases htail with ⟨rfl, -⟩ | rfl
    · nofun
    · exact forall_mem_cons.mpr ⟨by decide, hquery⟩
  have hscheme : ∀ c ∈ scheme.text ++ "://".toList, isUnsafe c = false := by
    cases scheme <;> simp [Scheme.text, isUnsafe]
  -- taking out what is unsafe touches the host at most
  have hfilter : (scheme.text ++ "://".toList ++ host ++ path ++ tail).filter (!isUnsafe ·) =
      scheme.text ++ "://".toList ++ (host.filter (!isUnsafe ·) ++ (path ++ tail)) := by
    rw [filter_append, filter_append, filter_append, filter_of_safe hscheme,
      filter_of_safe fun c hc => (hpath c hc).2.2, filter_of_safe fun c hc => (htails c hc).2,
      append_assoc, append_assoc]
  have hhead : (path ++ tail).head? = some '/' := by
    cases path with
    | nil => cases hrooted
    | cons => exact hrooted
  have hhash : (path ++ tail).takeWhile (· ≠ '#') = path ++ tail := by
    apply takeWhile_eq_self_iff.mpr
    intro c hc
    apply decide_eq_true
    rcases mem_append.mp hc with hc | hc
    · exact (hpath c hc).2.1
    · exact (htails c hc).1
  have hspan : (path ++ tail).span (· ≠ '?') = (path, tail) := by
    refine span_of_all tail (fun c hc => decide_eq_true (hpath c hc).1) ?_
    rcases htail with ⟨rfl, -⟩ | rfl
    · nofun
    · rintro c ⟨⟩
      rfl
  unfold urlsplit
  rw [hfilter, dropScheme_url, dropNetloc_of_host _ hhead]
  · dsimp only
    rw [hhash, hspan]
    rcases htail with ⟨rfl, rfl⟩ | rfl <;> rfl
  · intro c hc
    exact hhost c (mem_filter.mp hc).1

namespace HttpScope

variable {scope scope₁ scope₂ : HttpScope}

theorem target_of_plain (h : scope.Plain) {query : String}
    (hquery : decodeQuery scope.queryString = some query) :
    scope.target = some (scope.path, query) := by
  have hsplit : urlsplit (scope.url query) = (scope.path.toList, query.toList) := by
    refine urlsplit_of_plain scope.scheme h.host h.rooted h.path (h.query query hquery) ?_
    split
    · rename_i hempty
      rw [hempty] at hquery
      cases hquery
      exact .inl ⟨rfl, rfl⟩
    · exact .inr rfl
  rw [target, hquery, map_some, hsplit]
  simp

theorem toByteArray_of_decodeQuery {query : Bytes} {text : String}
    (h : decodeQuery query = some text) : text.toByteArray = ⟨query.toArray⟩ := by
  unfold decodeQuery at h
  split at h
  · subst_vars
    cases h
    rfl
  · unfold String.fromUTF8? at h
    split at h <;> cases h
    rfl

theorem toldApart_of_plain (h₁ : scope₁.Plain) (h₂ : scope₂.Plain) (hsome₁ : scope₁.target.isSome)
    (hsome₂ : scope₂.target.isSome) (h : Differ scope₁ scope₂ body₁ body₂) :
    ToldApart scope₁ scope₂ body₁ body₂ := by
  have hdecode : ∀ {scope : HttpScope}, scope.target.isSome →
      ∃ query, decodeQuery scope.queryString = some query := by
    intro scope hsome
    rw [target, isSome_map] at hsome
    exact isSome_iff_exists.mp hsome
  obtain ⟨query₁, hquery₁⟩ := hdecode hsome₁
  obtain ⟨query₂, hquery₂⟩ := hdecode hsome₂
  rw [ToldApart, target_of_plain h₁ hquery₁, target_of_plain h₂ hquery₂]
  rcases h with hmethod | hpath | hquery | htype | hbody
  · exact .inl hmethod
  · refine .inr (.inl fun heq => hpath ?_)
    exact (Prod.ext_iff.mp (some.inj heq)).1
  · refine .inr (.inl fun heq => hquery ?_)
    have hsame : query₁ = query₂ := (Prod.ext_iff.mp (some.inj heq)).2
    have hbytes₁ := toByteArray_of_decodeQuery hquery₁
    rw [hsame, toByteArray_of_decodeQuery hquery₂] at hbytes₁
    simpa using hbytes₁.symm
  · refine .inr (.inr (.inl fun heq => htype ?_))
    have hplain₁ := h₁.contentType
    have hplain₂ := h₂.contentType
    cases hc₁ : scope₁.contentType <;> cases hc₂ : scope₂.contentType <;> simp_all
  · exact .inr (.inr (.inr hbody))

theorem request_eq_some {q : HttpRequest} (h : scope.request = some q) :
    scope.target = some (q.path, q.query) ∧ q.method = scope.method ∧
      q.header "content-type" = scope.contentType := by
  obtain ⟨⟨path, query⟩, htarget, rfl⟩ := map_eq_some_iff.mp h
  exact ⟨htarget, rfl, rfl⟩

/-- **Two requests that differ have different bytes hashed if and only if what is left of them
    differs**, and always when both are plain. -/
theorem hashed_ne_iff {policy : RequestPolicy} (h₁ : Handles policy scope₁ q₁ body₁)
    (h₂ : Handles policy scope₂ q₂ body₂) (hdiffer : Differ scope₁ scope₂ body₁ body₂) :
    (hashed q₁ body₁ ≠ hashed q₂ body₂ ↔ ToldApart scope₁ scope₂ body₁ body₂) ∧
      (scope₁.Plain → scope₂.Plain → hashed q₁ body₁ ≠ hashed q₂ body₂) := by
  obtain ⟨htarget₁, hmethod₁, htype₁⟩ := request_eq_some h₁.request
  obtain ⟨htarget₂, hmethod₂, htype₂⟩ := request_eq_some h₂.request
  have hiff : hashed q₁ body₁ ≠ hashed q₂ body₂ ↔ ToldApart scope₁ scope₂ body₁ body₂ := by
    rw [ne_eq, hashed_inj, ToldApart, htarget₁, htarget₂, hmethod₁, hmethod₂, htype₁, htype₂]
    simp only [not_and_or, ne_eq, some.injEq, Prod.mk.injEq]
  refine ⟨hiff, fun hplain₁ hplain₂ => hiff.mpr ?_⟩
  exact toldApart_of_plain hplain₁ hplain₂ (by rw [htarget₁]; rfl) (by rw [htarget₂]; rfl) hdiffer

/-- A request with a key, and without a body. -/
def keyed (path : String) : HttpScope where
  method := "POST"
  host := "api.example"
  path := path
  headers := [(headerName "idempotency-key", encode "k")]
  received := [.request [] false]

/-- What the middleware sees of it. -/
def seen (path : String) : HttpRequest where
  method := "POST"
  path := path
  headers := [(headerName "idempotency-key", encode "k")]
  received := [.request [] false]

theorem handles_keyed {path path' : String} (htarget : (keyed path).target = some (path', ""))
    (happlies : RequestPolicy.appliesTo {} (seen path') = true) :
    Handles {} (keyed path) (seen path') [] where
  request := by
    rw [request, htarget]
    rfl
  keyed := by
    have hkey : (seen "").header "Idempotency-Key" = some "k" := by decide +kernel
    exact ⟨rfl, happlies, ⟨"k", hkey, by decide +kernel⟩, [], rfl⟩
  buffered := rfl

theorem hashed_ne_iff_orders :
    (hashed (seen "/api/orders/1") [] ≠ hashed (seen "/api/orders/2") [] ↔
        ToldApart (keyed "/api/orders/1") (keyed "/api/orders/2") [] []) ∧
      ((keyed "/api/orders/1").Plain → (keyed "/api/orders/2").Plain →
        hashed (seen "/api/orders/1") [] ≠ hashed (seen "/api/orders/2") []) := by
  have hfirst : Handles {} (keyed "/api/orders/1") (seen "/api/orders/1") [] :=
    handles_keyed (by decide +kernel) (by decide +kernel)
  have hsecond : Handles {} (keyed "/api/orders/2") (seen "/api/orders/2") [] :=
    handles_keyed (by decide +kernel) (by decide +kernel)
  exact hashed_ne_iff hfirst hsecond (.inr (.inl (by decide)))

/-- The second path has a `#` in it (sent as `%23`), and `urlsplit` takes what follows it for a
    fragment: the two requests are hashed as one. -/
theorem hashed_eq_of_hash : ∃ q₁ q₂, Handles {} (keyed "/api/orders/1") q₁ [] ∧
    Handles {} (keyed "/api/orders/1#2") q₂ [] ∧
    Differ (keyed "/api/orders/1") (keyed "/api/orders/1#2") [] [] ∧
    hashed q₁ [] = hashed q₂ [] :=
  ⟨seen "/api/orders/1", seen "/api/orders/1", handles_keyed (by decide +kernel)
    (by decide +kernel), handles_keyed (by decide +kernel) (by decide +kernel),
    .inr (.inl (by decide)), rfl⟩

end HttpScope

end Idempotency
