import Mathlib.Data.List.TakeWhile
import Ohno.EtcdClientShell

/-!
# `helper::split` and the loop that joins

`helper::split` reads a string stream with `std::getline` until the stream
fails. `EtcdClientShell::del` puts the items of a list together again with an
index loop. Both are the functions of `DelimitedLists`, by which the rest of
the development computes them.
-/
namespace Ohno.HelperString
open CommandPrograms AddressText EtcdClientShell

/-- `std::istringstream`: what is not yet read, and two of its flags. -/
structure InputStream where
  rest : Text
  eof : Bool := false
  fail : Bool := false
deriving Repr, DecidableEq

/-- `std::getline`. It fails when it takes nothing from the stream, a delimiter
included; the end of the input alone is no failure. -/
def getline (stream : InputStream) (token : Text) (delim : Char) : Text × InputStream :=
  if stream.eof || stream.fail then
    (token, { stream with fail := true })
  else
    match stream.rest.dropWhile (· ≠ delim) with
    | [] => (stream.rest, { rest := [], eof := true, fail := stream.rest.isEmpty })
    | _ :: rest => (stream.rest.takeWhile (· ≠ delim), { stream with rest })

/-- What a call of `getline` that does not fail uses up: part of the input, or
the last chance to read. -/
def InputStream.left (stream : InputStream) : ℕ :=
  stream.rest.length + if stream.eof then 0 else 1

theorem getline_good (rest token : Text) (delim : Char) :
    getline { rest } token delim =
      match rest.dropWhile (· ≠ delim) with
      | [] => (rest, { rest := [], eof := true, fail := rest.isEmpty })
      | _ :: tail => (rest.takeWhile (· ≠ delim), { rest := tail }) := rfl

theorem getline_bad {stream : InputStream} (h : (stream.eof || stream.fail) = true) (token : Text)
    (delim : Char) : getline stream token delim = (token, { stream with fail := true }) := by
  rw [getline, if_pos h]

theorem left_getline {stream : InputStream} {token : Text} {delim : Char}
    (h : (getline stream token delim).2.fail = false) :
    (getline stream token delim).2.left < stream.left := by
  by_cases hbad : (stream.eof || stream.fail) = true
  · simp [getline_bad hbad] at h
  · obtain ⟨rest, eof, fail⟩ := stream
    simp only [Bool.or_eq_true, not_or, Bool.not_eq_true] at hbad
    obtain ⟨rfl, rfl⟩ := hbad
    have hlen := (rest.dropWhile_sublist (· ≠ delim)).length_le
    rw [getline_good]
    cases hd : rest.dropWhile (· ≠ delim) with
    | nil => simp [InputStream.left]
    | cons c tail =>
        rw [hd, List.length_cons] at hlen
        simp only [InputStream.left, Bool.false_eq_true, if_false]
        omega

def splitLoop (delim : Char) (stream : InputStream) (token : Text) (tokens : List Text) :
    List Text :=
  if _h : (getline stream token delim).2.fail then tokens
  else
    splitLoop delim (getline stream token delim).2 (getline stream token delim).1
      (tokens ++ [(getline stream token delim).1])
termination_by stream.left
decreasing_by exact left_getline (by simpa using _h)

def split (str : Text) (delim : Char) : List Text :=
  splitLoop delim { rest := str } [] []

/-- The loop of `EtcdClientShell::del`, which puts no delimiter behind the last value. -/
def rejoin (delim : Char) (values : List Text) : Text :=
  (List.range values.length).foldl (fun toPut i =>
    toPut ++ values.getD i [] ++ if i ≠ values.length - 1 then [delim] else []) []

/-! ### The loops compute the library's functions -/

/-- A stream that reached its end gives nothing more. -/
theorem splitLoop_eof (delim : Char) (rest token : Text) (fail : Bool) (tokens : List Text) :
    splitLoop delim ⟨rest, true, fail⟩ token tokens = tokens := by
  rw [splitLoop]
  simp [getline]

theorem splitLoop_nil (delim : Char) (token : Text) (tokens : List Text) :
    splitLoop delim { rest := [] } token tokens = tokens := by
  rw [splitLoop]
  simp [getline]

/-- What is left without a delimiter is the last token. -/
theorem splitLoop_last {delim : Char} {rest : Text} (hd : delim ∉ rest) (hn : rest ≠ [])
    (token : Text) (tokens : List Text) :
    splitLoop delim { rest } token tokens = tokens ++ [rest] := by
  have hdrop : rest.dropWhile (· ≠ delim) = [] := by
    rw [List.dropWhile_eq_nil_iff]
    intro c hc
    simpa using fun he : c = delim => hd (he ▸ hc)
  have hline : getline { rest } token delim = (rest, ⟨[], true, false⟩) := by
    rw [getline_good, hdrop]
    simp [hn]
  rw [splitLoop, hline]
  simp [splitLoop_eof]

theorem splitLoop_append {delim : Char} {x : Text} (hd : delim ∉ x) (rest token : Text)
    (tokens : List Text) :
    splitLoop delim { rest := x ++ delim :: rest } token tokens =
      splitLoop delim { rest } x (tokens ++ [x]) := by
  have hall : ∀ c ∈ x, decide (c ≠ delim) = true := by
    intro c hc
    simpa using fun he : c = delim => hd (he ▸ hc)
  have hdrop : (x ++ delim :: rest).dropWhile (· ≠ delim) = delim :: rest := by
    rw [List.dropWhile_append_of_pos hall]
    simp
  have htake : (x ++ delim :: rest).takeWhile (· ≠ delim) = x := by
    rw [List.takeWhile_append_of_pos hall]
    simp
  have hline : getline { rest := x ++ delim :: rest } token delim = (x, { rest }) := by
    rw [getline_good, hdrop, htake]
  rw [splitLoop, hline]
  simp

/-- From any point of the input on, the loop appends what the library reads there. -/
theorem splitLoop_eq (delim : Char) (rest token : Text) (tokens : List Text) :
    splitLoop delim { rest } token tokens = tokens ++ DelimitedLists.split delim rest := by
  induction hn : rest.length using Nat.strong_induction_on generalizing rest token tokens with
  | _ n ih =>
      by_cases hd : delim ∈ rest
      · obtain ⟨x, tail, rfl, hx⟩ := List.eq_append_cons_of_mem hd
        have hlt : tail.length < n := by
          rw [← hn, List.length_append, List.length_cons]
          omega
        rw [splitLoop_append hx, ih tail.length hlt tail x (tokens ++ [x]) rfl,
          DelimitedLists.split_append delim hx, List.append_assoc, List.singleton_append]
      · by_cases hnil : rest = []
        · rw [hnil, splitLoop_nil, DelimitedLists.split, List.append_nil]
        · rw [splitLoop_last hd hnil, DelimitedLists.split_eq_singleton hd hnil]

theorem split_eq (str : Text) (delim : Char) :
    split str delim = DelimitedLists.split delim str := by
  rw [split, splitLoop_eq, List.nil_append]

/-- Before its last round the loop has put a delimiter behind every value. -/
theorem rejoin_rounds (delim : Char) (values : List Text) {k : ℕ} (hk : k < values.length) :
    (List.range k).foldl (fun toPut i =>
      toPut ++ values.getD i [] ++ if i ≠ values.length - 1 then [delim] else []) [] =
      (values.take k).flatMap (· ++ [delim]) := by
  induction k with
  | zero => rfl
  | succ k ih =>
      have hne : k ≠ values.length - 1 := by omega
      have hget : values.getD k [] = values[k] := by simp [List.getD, Nat.lt_of_succ_lt hk]
      rw [List.range_succ, List.foldl_append, ih (Nat.lt_of_succ_lt hk),
        List.take_succ_eq_append_getElem (Nat.lt_of_succ_lt hk)]
      simp only [List.foldl_cons, List.foldl_nil, if_pos hne, hget, List.flatMap_append,
        List.flatMap_singleton, List.append_assoc]

theorem join_eq_flatMap (delim : Char) (values : List Text) (last : Text) :
    DelimitedLists.join delim (values ++ [last]) = values.flatMap (· ++ [delim]) ++ last := by
  induction values with
  | nil => simp
  | cons v values ih =>
      rw [List.cons_append, DelimitedLists.join_cons delim v (by simp), ih]
      simp

theorem rejoin_eq (delim : Char) (values : List Text) :
    rejoin delim values = DelimitedLists.join delim values := by
  rcases List.eq_nil_or_concat values with rfl | ⟨init, last, rfl⟩
  · rfl
  · rw [List.concat_eq_append, join_eq_flatMap]
    have hlen : (init ++ [last]).length = init.length + 1 := by simp
    have hround := rejoin_rounds delim (init ++ [last]) (k := init.length) (by simp)
    rw [rejoin, hlen, List.range_succ, List.foldl_append, ← hlen, hround]
    simp

/-- The deletion of one list item, with the loop of the source in it. -/
theorem delValue_eq (key value : Text) :
    delValue key value = (list key).bind fun
      | none => Program.pure false
      | some values =>
          let toPut := rejoin ',' (values.filter (· ≠ value))
          if toPut = [] then del key else put key toPut := by
  simp only [rejoin_eq]
  rfl

theorem list_eq (key : Text) :
    list key = (get key).bind fun ret =>
      Program.pure (if ret.ok then some (split ret.out ',') else none) := by
  simp only [split_eq]
  rfl

/-! ### Reading what was written -/

/-- Only a delimiter at the very end is lost. -/
theorem join_split (delim : Char) (str : Text) :
    DelimitedLists.join delim (DelimitedLists.split delim str) =
      if str.getLast? = some delim then str.dropLast else str := by
  have hj : DelimitedLists.join delim (str.splitOn delim) = str := List.intercalate_splitOn delim
  rw [DelimitedLists.splitOn_eq] at hj
  by_cases hlast : str.getLast? = some delim
  · have hne : DelimitedLists.split delim str ≠ [] := by
      rw [Ne, DelimitedLists.split_eq_nil_iff]
      intro hnil
      simp [hnil] at hlast
    rw [if_pos (.inr hlast), DelimitedLists.join_concat delim hne] at hj
    have hdrop := congrArg List.dropLast hj
    rw [List.dropLast_concat] at hdrop
    rw [if_pos hlast, hdrop]
  · rw [if_neg hlast]
    by_cases hnil : str = []
    · simp [hnil, DelimitedLists.split]
    · rwa [if_neg (by simp [hnil, hlast])] at hj

theorem split_rejoin (str : Text) (delim : Char) :
    (∀ token ∈ split str delim, delim ∉ token) ∧
    rejoin delim (split str delim) = (if str.getLast? = some delim then str.dropLast else str) ∧
    ∀ texts : List Text, (∀ x ∈ texts, delim ∉ x) → texts.getLast? ≠ some [] →
      split (rejoin delim texts) delim = texts := by
  simp only [split_eq, rejoin_eq]
  refine ⟨DelimitedLists.free_of_mem_split delim str, join_split delim str, ?_⟩
  intro texts free last
  exact DelimitedLists.split_join delim ⟨free, last⟩

theorem split_rejoin_route :
    split (rejoin ',' ["10.1.0.0/24".toList, [], "ohno0".toList]) ',' =
      ["10.1.0.0/24".toList, [], "ohno0".toList] :=
  (split_rejoin [] ',').2.2 _ (by decide) (by decide)

end Ohno.HelperString
