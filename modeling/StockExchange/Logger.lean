import Mathlib.Data.List.TakeWhile
import Mathlib.Tactic.Common

/-!
# The log formatter

The two overloads of `log` recurse over the format and the arguments and push a value for each
character and each argument. What they push is the format with its holes filled, and a count of
holes that is not that of the arguments ends in `FATAL`.
-/

namespace StockExchange

namespace Logger

/-- The characters before the terminating zero, for `const char*` and `c_str()`. -/
structure CString where
  chars : List UInt8
  noZero : 0 ∉ chars

/-- The `log_entry` of a character or a string; `data_.s` has 256 characters. -/
inductive LogEntry where
  | char (c : UInt8)
  | string (s : List UInt8)
deriving DecidableEq

/-- What `flush_queue` writes of an entry. -/
def LogEntry.text : LogEntry → List UInt8
  | .char c => [c]
  | .string s => s.takeWhile (· ≠ 0)

/-- Cut after `n` characters, or filled up with zeros. -/
def strncpy (n : Nat) (value : List UInt8) : List UInt8 :=
  value.take n ++ List.replicate (n - value.length) 0

/-- `push_value(const char*)`. Under `_WIN32` a string that would be cut is not pushed. -/
def pushValue (win32 : Bool) (value : CString) : List LogEntry :=
  if win32 ∧ 256 ≤ value.chars.length then [] else [.string (strncpy 255 value.chars ++ [0])]

/-- What a call of `log` pushes, and the message of the `FATAL` that ends it, if one does. -/
structure Logged where
  pushed : List LogEntry
  fatal : Option String

def Logged.push (entries : List LogEntry) (r : Logged) : Logged :=
  { r with pushed := entries ++ r.pushed }

def missingArguments : String := "missing arguments to log()"
def extraArguments : String := "extra arguments provided to log()"

/-- `'%'`. -/
def percent : UInt8 := 0x25

/-- `log(const char*)`. -/
def logEnd : List UInt8 → Logged
  | [] => ⟨[], none⟩
  | c :: s =>
    if c = percent then match s with
      | [] => ⟨[], some missingArguments⟩
      | d :: s' => if d = percent then (logEnd s').push [.char d] else ⟨[], some missingArguments⟩
    else (logEnd s).push [.char c]

/-- `log(const char*, const T&, A...)`; without arguments it is the other overload. -/
def log (win32 : Bool) : List UInt8 → List CString → Logged
  | s, [] => logEnd s
  | [], _ :: _ => ⟨[], some extraArguments⟩
  | c :: s, value :: args =>
    if c = percent then match s with
      | [] => (log win32 [] args).push (pushValue win32 value)
      | d :: s' =>
        if d = percent then (log win32 s' (value :: args)).push [.char d]
        else (log win32 (d :: s') args).push (pushValue win32 value)
    else (log win32 s (value :: args)).push [.char c]

/-! ## Formats -/

inductive Token where
  | literal (c : UInt8)
  | hole
deriving DecidableEq

/-- A format read from left to right, `%%` being one `%`. -/
def tokens : List UInt8 → List Token
  | [] => []
  | c :: s =>
    if c = percent then match s with
      | [] => [.hole]
      | d :: s' => if d = percent then .literal d :: tokens s' else .hole :: tokens (d :: s')
    else .literal c :: tokens s

def holes (ts : List Token) : Nat := ts.count .hole

/-- The format with its holes filled in turn. -/
def fill : List Token → List CString → List UInt8
  | .literal c :: ts, args => c :: fill ts args
  | .hole :: ts, a :: args => a.chars ++ fill ts args
  | _, _ => []

/-- One entry for each character and one for each argument. -/
def entries : List Token → List CString → List LogEntry
  | .literal c :: ts, args => .char c :: entries ts args
  | .hole :: ts, a :: args => .string (strncpy 255 a.chars ++ [0]) :: entries ts args
  | _, _ => []

/-- `log` over tokens. -/
def logTokens (win32 : Bool) : List Token → List CString → Logged
  | [], [] => ⟨[], none⟩
  | [], _ :: _ => ⟨[], some extraArguments⟩
  | .literal c :: ts, args => (logTokens win32 ts args).push [.char c]
  | .hole :: _, [] => ⟨[], some missingArguments⟩
  | .hole :: ts, a :: args => (logTokens win32 ts args).push (pushValue win32 a)

section Tokens
variable (win32 : Bool)

theorem logEnd_eq (s : List UInt8) : logEnd s = logTokens win32 (tokens s) [] := by
  fun_induction tokens s with
  | case1 => rfl
  | case2 => rfl
  | case3 s' ih => simp [logEnd, logTokens, ih]
  | case4 d s' hd ih => simp [logEnd, logTokens, hd]
  | case5 c s hc ih =>
    rw [logTokens, ← ih, logEnd.eq_def]
    exact if_neg hc

/-- The two overloads read the format token by token. -/
theorem log_eq (s : List UInt8) (args : List CString) :
    log win32 s args = logTokens win32 (tokens s) args := by
  cases args with
  | nil =>
    rw [log]
    exact logEnd_eq win32 s
  | cons a args =>
    fun_induction tokens s generalizing a args with
    | case1 => rfl
    | case2 => cases args <;> rfl
    | case3 s' ih => simp [log, logTokens, ih]
    | case4 d s' hd ih =>
      have hrest : log win32 (d :: s') args = logTokens win32 (tokens (d :: s')) args := by
        cases args with
        | nil =>
          rw [log]
          exact logEnd_eq win32 _
        | cons b args => exact ih b args
      simp [log, logTokens, hd, hrest]
    | case5 c s hc ih =>
      rw [logTokens, ← ih, log.eq_def]
      exact if_neg hc

end Tokens

section Substitution
variable {win32 : Bool}

/-- A string that fits is pushed whole. -/
theorem pushValue_short {a : CString} (short : a.chars.length < 256) :
    pushValue win32 a = [.string (strncpy 255 a.chars ++ [0])] :=
  if_neg fun h => absurd short (Nat.not_lt.mpr h.2)

theorem text_short {a : CString} (short : a.chars.length < 256) :
    (LogEntry.string (strncpy 255 a.chars ++ [0])).text = a.chars := by
  have hwhole : a.chars.take 255 = a.chars := List.take_of_length_le (by omega)
  have hzeros : ∀ n, (List.replicate n (0 : UInt8) ++ [0]).takeWhile (· ≠ 0) = [] := by
    intro n
    cases n <;> rfl
  have hchars : ∀ c ∈ a.chars, c ≠ 0 := fun c hc heq => a.noZero (heq ▸ hc)
  rw [LogEntry.text, strncpy, hwhole, List.append_assoc,
    List.takeWhile_append_of_pos fun c hc => by simpa using hchars c hc, hzeros, List.append_nil]

theorem fatal_push (es : List LogEntry) (r : Logged) : (r.push es).fatal = r.fatal := rfl

/-- `FATAL` is reached when the holes or the arguments run out before the others. -/
theorem fatal_logTokens (ts : List Token) (args : List CString) :
    (logTokens win32 ts args).fatal = if holes ts = args.length then none
      else if holes ts < args.length then some extraArguments else some missingArguments := by
  fun_induction logTokens win32 ts args with
  | case1 => rfl
  | case2 a args => simp [holes]
  | case3 c ts args ih =>
    rw [fatal_push, ih, holes, holes, List.count_cons_of_ne (by simp)]
  | case4 ts => simp [holes]
  | case5 ts a args ih =>
    have hcount : holes (.hole :: ts) = holes ts + 1 := List.count_cons_self
    rw [fatal_push, ih, hcount, List.length_cons]
    simp only [Nat.add_right_cancel_iff, Nat.add_lt_add_iff_right]

/-- With an argument for each hole, every character and every argument is one entry. -/
theorem pushed_logTokens {ts : List Token} {args : List CString}
    (short : ∀ a ∈ args, a.chars.length < 256) (count : holes ts = args.length) :
    (logTokens win32 ts args).pushed = entries ts args := by
  fun_induction logTokens win32 ts args with
  | case1 => rfl
  | case2 a args => simp [holes] at count
  | case3 c ts args ih =>
    rw [holes, List.count_cons_of_ne (by simp)] at count
    exact congrArg (LogEntry.char c :: ·) (ih short count)
  | case4 ts => simp [holes] at count
  | case5 ts a args ih =>
    have hcount : holes (.hole :: ts) = holes ts + 1 := List.count_cons_self
    have hrest := ih (fun b hb => short b (List.mem_cons_of_mem a hb)) (by
      rw [hcount, List.length_cons] at count
      omega)
    rw [Logged.push, pushValue_short (short a List.mem_cons_self), hrest]
    rfl

theorem text_entries {ts : List Token} {args : List CString}
    (short : ∀ a ∈ args, a.chars.length < 256) :
    (entries ts args).flatMap LogEntry.text = fill ts args := by
  fun_induction fill ts args with
  | case1 c ts args ih => exact congrArg (c :: ·) (ih short)
  | case2 ts a args ih =>
    rw [entries, List.flatMap_cons, text_short (short a List.mem_cons_self),
      ih fun b hb => short b (List.mem_cons_of_mem a hb)]
  | case3 ts args h h' =>
    rcases ts with _ | ⟨_ | _, ts⟩
    · rfl
    · exact (h _ _ rfl).elim
    · cases args with
      | nil => rfl
      | cons a args => exact (h' _ _ _ rfl rfl).elim

/-- For every format and all arguments that fit: if the holes are as many as the arguments,
`log` pushes the format with each hole filled by its argument, whole, and each `%%` as one `%`;
otherwise it ends in `FATAL`. -/
theorem log_substitutes (win32 : Bool) (format : CString) (args : List CString)
    (short : ∀ a ∈ args, a.chars.length < 256) :
    (holes (tokens format.chars) = args.length →
      (log win32 format.chars args).fatal = none ∧
      (log win32 format.chars args).pushed = entries (tokens format.chars) args ∧
      (log win32 format.chars args).pushed.flatMap LogEntry.text =
        fill (tokens format.chars) args) ∧
    (holes (tokens format.chars) ≠ args.length →
      (log win32 format.chars args).fatal = some
        (if holes (tokens format.chars) < args.length then extraArguments
        else missingArguments)) := by
  rw [log_eq, fatal_logTokens]
  constructor
  · intro count
    have hpushed : (logTokens win32 (tokens format.chars) args).pushed =
        entries (tokens format.chars) args := pushed_logTokens short count
    exact ⟨if_pos count, hpushed, by rw [hpushed, text_entries short]⟩
  · intro count
    rw [if_neg count]
    split <;> rfl

/-- `"%%%"`. -/
def escapedThenHole : CString := ⟨[percent, percent, percent], by decide⟩

/-- `"5%"`. -/
def fivePercent : CString := ⟨[0x35, percent], by decide⟩

/-- The hypothesis is met by an argument that contains a `%`. -/
theorem log_substitutes_sample :
    (log false escapedThenHole.chars [fivePercent]).fatal = none ∧
    (log false escapedThenHole.chars [fivePercent]).pushed.flatMap LogEntry.text =
      [percent, 0x35, percent] := by
  obtain ⟨hfatal, -, htext⟩ := (log_substitutes false escapedThenHole [fivePercent] (by decide)).1
    (by decide)
  exact ⟨hfatal, htext⟩

end Substitution

end Logger

end StockExchange
