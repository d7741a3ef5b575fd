import ScoreboardCtrl.Lib.Str

/-!
# The log of the web server

`log_http` writes a line for every request but those for the status. It shows the browser by a short
name, or by the first 28 bytes of what it calls itself.

* `uaTag_returns_iff` — the tag of a browser is taken exactly when those 28 bytes end between two
  characters, or are not needed;
* `log_http_returns_iff` — so it is with the line of a request.
-/

namespace ScoreboardCtrl.Http

open Lib Lib.Rust

/-- What the log reads of a request. `header` is the lookup of `headers().get`. -/
structure RequestParts where
  method : String
  path : String
  header : String → Option ByteArray

/-- `HeaderValue::as_str` -/
def asStr (value : ByteArray) : Option String := String.fromUTF8? value

def hdr (parts : RequestParts) (name : String) : String :=
  ((parts.header name).bind asStr).getD "-"

def uaTag (ua : String) : Rust String :=
  if contains ua "CaptiveNetworkSupport" then pure "CNA"
  else if contains ua "Android" then pure "Android"
  else if contains ua "iPhone" || contains ua "iPad" || contains ua "iPod" then pure "iOS"
  else if contains ua "Macintosh" then pure "macOS"
  else if ua.utf8ByteSize > 28 then sliceTo ua 28
  else pure ua

/-- The line `log_http` emits, if any. -/
def logHttp (servedUi : Bool) (parts : RequestParts) (action : String) : Rust (Option String) :=
  if startsWith parts.path "/api/status" then pure none
  else do
    let ua ← uaTag (hdr parts "User-Agent")
    return some (String.join ["HTTP ", parts.method, " ", parts.path, " host=", hdr parts "Host",
      " ua=", ua, " served=", if servedUi then "1" else "0", " -> ", action])

/-- `ua_tag` has a name for the browser. -/
def Named (ua : String) : Prop :=
  ∃ mark ∈ ["CaptiveNetworkSupport", "Android", "iPhone", "iPad", "iPod", "Macintosh"],
    contains ua mark = true

theorem uaTag_of_not_named {ua : String} (h : ¬ Named ua) :
    uaTag ua = if ua.utf8ByteSize > 28 then sliceTo ua 28 else pure ua := by
  have hmark (mark : String)
      (hmem : mark ∈ ["CaptiveNetworkSupport", "Android", "iPhone", "iPad", "iPod", "Macintosh"]) :
      contains ua mark = false := by
    by_contra hcontains
    exact h ⟨mark, hmem, by simpa using hcontains⟩
  unfold uaTag
  simp [hmark]

theorem uaTag_of_named {ua : String} (h : Named ua) :
    ∃ tag ∈ ["CNA", "Android", "iOS", "macOS"], uaTag ua = .ok tag := by
  obtain ⟨mark, hmem, hcontains⟩ := h
  unfold uaTag
  split
  · exact ⟨_, by simp, rfl⟩
  split
  · exact ⟨_, by simp, rfl⟩
  split
  · exact ⟨_, by simp, rfl⟩
  split
  · exact ⟨_, by simp, rfl⟩
  · -- no mark is in it
    simp only [List.mem_cons, List.not_mem_nil, or_false] at hmem
    rcases hmem with rfl | rfl | rfl | rfl | rfl | rfl <;> simp_all

/-- **The tag** returns unless byte 28 of a name that is shown cut is inside a character. -/
theorem uaTag_returns_iff {ua : String} :
    (∃ tag, uaTag ua = .ok tag) ↔
      Named ua ∨ ua.utf8ByteSize ≤ 28 ∨ ∃ pre post, ua = pre ++ post ∧ pre.utf8ByteSize = 28 := by
  by_cases hnamed : Named ua
  · obtain ⟨tag, -, htag⟩ := uaTag_of_named hnamed
    exact iff_of_true ⟨tag, htag⟩ (.inl hnamed)
  rw [uaTag_of_not_named hnamed]
  by_cases hlong : ua.utf8ByteSize > 28
  · rw [if_pos hlong, sliceTo_returns_iff]
    constructor
    · exact fun h => .inr (.inr h)
    · rintro (h | h | h)
      · exact absurd h hnamed
      · omega
      · exact h
  · rw [if_neg hlong]
    exact iff_of_true ⟨ua, rfl⟩ (.inr (.inl (by omega)))

/-- **`log_http` returns** for a request exactly when it is one for the status, or the tag of its
browser is a name, a short text, or one with a character that ends at byte 28. -/
theorem log_http_returns_iff (servedUi : Bool) (parts : RequestParts) (action : String) :
    (∃ line, logHttp servedUi parts action = .ok line) ↔
      startsWith parts.path "/api/status" = true ∨ Named (hdr parts "User-Agent") ∨
        (hdr parts "User-Agent").utf8ByteSize ≤ 28 ∨
        ∃ pre post, hdr parts "User-Agent" = pre ++ post ∧ pre.utf8ByteSize = 28 := by
  rw [logHttp]
  by_cases hpath : startsWith parts.path "/api/status" = true
  · rw [if_pos hpath]
    exact iff_of_true ⟨none, rfl⟩ (.inl hpath)
  rw [if_neg hpath, ← uaTag_returns_iff]
  constructor
  · rintro ⟨line, hline⟩
    cases htag : uaTag (hdr parts "User-Agent") with
    | ok tag => exact .inr ⟨tag, rfl⟩
    | error e =>
      rw [htag] at hline
      cases hline
  · rintro (h | ⟨tag, htag⟩)
    · exact absurd h hpath
    · rw [htag]
      exact ⟨_, rfl⟩

/-- Twenty-seven letters, and then an `é`. -/
theorem log_http_cuts_a_character :
    ¬ ∀ (servedUi : Bool) (parts : RequestParts) (action : String),
      ∃ line, logHttp servedUi parts action = .ok line := by
  intro h
  obtain ⟨line, hline⟩ := h false
    ⟨"GET", "/", fun name =>
      if name = "User-Agent" then some "abcdefghijklmnopqrstuvwxyzaé".toUTF8 else none⟩ "ui"
  have hfault : logHttp false ⟨"GET", "/", fun name =>
      if name = "User-Agent" then some "abcdefghijklmnopqrstuvwxyzaé".toUTF8 else none⟩ "ui" =
      .error .boundary := by decide +kernel
  rw [hfault] at hline
  cases hline

end ScoreboardCtrl.Http
