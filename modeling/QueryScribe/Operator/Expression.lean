/-!
# Expression operators

An aggregation expression is a document with one operator, such as
`$add` or `$cond`.  The table lists the operators that have a builder, with the
number and kind of their arguments.  The names are all different, and so are
the builders, so a builder call tells its operator.
-/

namespace QueryScribe

/-- What a named argument holds, and what stands in its place when it is absent. -/
inductive Slot where
  /-- An expression; absent, it is `nil` or the given string. -/
  | expression (absent : Option String)
  /-- A string, with the one that stands for it when absent. -/
  | text (absent : String)
  /-- A string, or the pattern of a regular expression. -/
  | pattern
  /-- A string; absent, the flags of the regular expression beside it. -/
  | flags
  /-- A Boolean, false when absent. -/
  | flag
  /-- A literal, whatever its keys may name. -/
  | literal
  /-- The branches of a case distinction. -/
  | branches
  deriving DecidableEq, Repr

structure Param where
  name : String
  slot : Slot
  deriving DecidableEq, Repr

/-- The number and kind of an expression operator's arguments. -/
inductive Arity where
  /-- No argument; the operator's value is ignored. -/
  | nullary
  /-- One argument, itself an expression. -/
  | unary
  /-- One argument, taken as a literal. -/
  | literal
  /-- An array of so many expressions; a lone argument may stand without its array. -/
  | fixed (count : Nat)
  /-- An array of expressions. -/
  | variadic
  /-- A document of named arguments, emitted in this order.  A positional operator also takes an
  array with one expression for each of them. -/
  | named (params : List Param) (positional : Bool)
  deriving DecidableEq, Repr

structure ExpressionOperator where
  builder : String
  arity : Arity
  deriving DecidableEq, Repr

namespace ExpressionOperator

/-! ### Operators by position -/

def unary : List (String × String) :=
  [("$abs", "ExprAbs"), ("$ceil", "ExprCeil"), ("$floor", "ExprFloor"), ("$sqrt", "ExprSqrt"),
    ("$ln", "ExprLn"), ("$type", "ExprType"), ("$isArray", "ExprIsArray"),
    ("$isNumber", "ExprIsNumber"), ("$toLower", "ExprToLower"), ("$toUpper", "ExprToUpper"),
    ("$strLenCP", "ExprStrLenCP"), ("$year", "ExprYear"), ("$month", "ExprMonth"),
    ("$dayOfMonth", "ExprDayOfMonth"), ("$hour", "ExprHour"), ("$minute", "ExprMinute"),
    ("$second", "ExprSecond"), ("$millisecond", "ExprMillisecond"),
    ("$dayOfYear", "ExprDayOfYear"), ("$dayOfWeek", "ExprDayOfWeek"), ("$isoWeek", "ExprISOWeek"),
    ("$isoWeekYear", "ExprISOWeekYear"), ("$toDate", "ExprToDate"),
    ("$toDecimal", "ExprToDecimal"), ("$toDouble", "ExprToDouble"), ("$toInt", "ExprToInt"),
    ("$toLong", "ExprToLong"), ("$toObjectId", "ExprToObjectId"), ("$toString", "ExprToString"),
    ("$toBool", "ExprToBool"), ("$reverseArray", "ExprReverseArray"),
    ("$objectToArray", "ExprObjectToArray"), ("$arrayToObject", "ExprArrayToObject"),
    ("$anyElementTrue", "ExprAnyElementTrue"), ("$allElementsTrue", "ExprAllElementsTrue")]

def accumulators : List (String × String) :=
  [("$sum", "AccSum"), ("$avg", "AccAvg"), ("$min", "AccMin"), ("$max", "AccMax"),
    ("$first", "AccFirst"), ("$last", "AccLast"), ("$push", "AccPush"),
    ("$addToSet", "AccAddToSet"), ("$stdDevPop", "AccStdDevPop"),
    ("$stdDevSamp", "AccStdDevSamp")]

def nullary : List (String × String) :=
  [("$count", "AccCount"), ("$rand", "ExprRand")]

def fixed : List (String × String × Nat) :=
  [("$not", "ExprBoolNot", 1), ("$subtract", "ExprSubtract", 2), ("$divide", "ExprDivide", 2),
    ("$mod", "ExprMod", 2), ("$pow", "ExprPow", 2), ("$log", "ExprLog", 2),
    ("$round", "ExprRound", 2), ("$cmp", "ExprCmp", 2), ("$eq", "ExprEq", 2),
    ("$ne", "ExprNe", 2), ("$gt", "ExprGt", 2), ("$gte", "ExprGte", 2), ("$lt", "ExprLt", 2),
    ("$lte", "ExprLte", 2), ("$ifNull", "ExprIfNull", 2), ("$split", "ExprSplit", 2),
    ("$arrayElemAt", "ExprArrayElemAt", 2), ("$setDifference", "ExprSetDifference", 2),
    ("$setIsSubset", "ExprSetIsSubset", 2), ("$in", "ExprIn", 2),
    ("$indexOfArray", "ExprIndexOfArray", 2), ("$substr", "ExprSubstr", 3)]

def variadic : List (String × String) :=
  [("$add", "ExprAdd"), ("$multiply", "ExprMultiply"), ("$concat", "ExprConcat"),
    ("$concatArrays", "ExprConcatArrays"), ("$setEquals", "ExprSetEquals"),
    ("$setIntersection", "ExprSetIntersection"), ("$setUnion", "ExprSetUnion"),
    ("$mergeObjects", "ExprMergeObjects"), ("$slice", "ExprSlice"), ("$and", "ExprBoolAnd"),
    ("$or", "ExprBoolOr")]

/-! ### Operators with named arguments -/

def filterParams : List Param :=
  [⟨"input", .expression none⟩, ⟨"as", .text "this"⟩, ⟨"cond", .expression none⟩]

def mapParams : List Param :=
  [⟨"input", .expression none⟩, ⟨"as", .text "this"⟩, ⟨"in", .expression none⟩]

def reduceParams : List Param :=
  [⟨"input", .expression none⟩, ⟨"initialValue", .expression none⟩, ⟨"in", .expression none⟩]

def letParams : List Param := [⟨"vars", .literal⟩, ⟨"in", .expression none⟩]

def regexParams : List Param :=
  [⟨"input", .expression none⟩, ⟨"regex", .pattern⟩, ⟨"options", .flags⟩]

def replaceParams : List Param :=
  [⟨"input", .expression none⟩, ⟨"find", .expression none⟩, ⟨"replacement", .expression none⟩]

def trimParams : List Param := [⟨"input", .expression none⟩, ⟨"chars", .expression none⟩]

def condParams : List Param :=
  [⟨"if", .expression none⟩, ⟨"then", .expression none⟩, ⟨"else", .expression none⟩]

def switchParams : List Param := [⟨"branches", .branches⟩, ⟨"default", .expression none⟩]

def zipParams : List Param :=
  [⟨"inputs", .literal⟩, ⟨"useLongestLength", .flag⟩, ⟨"defaults", .literal⟩]

def convertParams : List Param :=
  [⟨"input", .expression none⟩, ⟨"to", .expression none⟩, ⟨"onError", .expression none⟩,
    ⟨"onNull", .expression none⟩]

def dateToStringParams : List Param :=
  [⟨"date", .expression none⟩, ⟨"format", .expression none⟩, ⟨"timezone", .expression none⟩]

def dateFromStringParams : List Param :=
  [⟨"dateString", .expression none⟩, ⟨"format", .expression none⟩, ⟨"timezone", .expression none⟩]

def dateAddParams : List Param :=
  [⟨"startDate", .expression none⟩, ⟨"unit", .text ""⟩, ⟨"amount", .expression none⟩]

def dateDiffParams : List Param :=
  [⟨"startDate", .expression none⟩, ⟨"endDate", .expression none⟩, ⟨"unit", .text ""⟩]

def dateTruncParams : List Param := [⟨"date", .expression none⟩, ⟨"unit", .text ""⟩]

def getFieldParams : List Param :=
  [⟨"field", .expression none⟩, ⟨"input", .expression (some "$$CURRENT")⟩]

def setFieldParams : List Param :=
  [⟨"field", .expression none⟩, ⟨"input", .expression (some "$$CURRENT")⟩,
    ⟨"value", .expression none⟩]

def sortArrayParams : List Param := [⟨"input", .expression none⟩, ⟨"sortBy", .expression none⟩]

def countedParams : List Param := [⟨"input", .expression none⟩, ⟨"n", .expression none⟩]

def topParams : List Param := [⟨"sortBy", .literal⟩, ⟨"output", .expression none⟩]

def topNParams : List Param :=
  [⟨"sortBy", .literal⟩, ⟨"output", .expression none⟩, ⟨"n", .expression none⟩]

def medianParams : List Param := [⟨"input", .expression none⟩, ⟨"method", .text "approximate"⟩]

def percentileParams : List Param :=
  [⟨"input", .expression none⟩, ⟨"p", .literal⟩, ⟨"method", .text "approximate"⟩]

def named : List (String × String × List Param) :=
  [("$filter", "ExprFilter", filterParams), ("$map", "ExprMap", mapParams),
    ("$reduce", "ExprReduce", reduceParams), ("$let", "ExprLet", letParams),
    ("$regexMatch", "ExprRegexMatch", regexParams), ("$regexFind", "ExprRegexFind", regexParams),
    ("$regexFindAll", "ExprRegexFindAll", regexParams),
    ("$replaceOne", "ExprReplaceOne", replaceParams),
    ("$replaceAll", "ExprReplaceAll", replaceParams), ("$trim", "ExprTrim", trimParams),
    ("$ltrim", "ExprLTrim", trimParams), ("$rtrim", "ExprRTrim", trimParams),
    ("$cond", "ExprCond", condParams), ("$switch", "ExprSwitch", switchParams),
    ("$zip", "ExprZip", zipParams), ("$convert", "ExprConvert", convertParams),
    ("$dateToString", "ExprDateToString", dateToStringParams),
    ("$dateFromString", "ExprDateFromString", dateFromStringParams),
    ("$dateAdd", "ExprDateAdd", dateAddParams),
    ("$dateSubtract", "ExprDateSubtract", dateAddParams),
    ("$dateDiff", "ExprDateDiff", dateDiffParams),
    ("$dateTrunc", "ExprDateTrunc", dateTruncParams),
    ("$getField", "ExprGetField", getFieldParams), ("$setField", "ExprSetField", setFieldParams),
    ("$unsetField", "ExprUnsetField", getFieldParams),
    ("$sortArray", "ExprSortArray", sortArrayParams), ("$firstN", "AccFirstN", countedParams),
    ("$lastN", "AccLastN", countedParams), ("$maxN", "AccMaxN", countedParams),
    ("$minN", "AccMinN", countedParams), ("$top", "AccTop", topParams),
    ("$bottom", "AccBottom", topParams), ("$topN", "AccTopN", topNParams),
    ("$bottomN", "AccBottomN", topNParams), ("$median", "AccMedian", medianParams),
    ("$percentile", "AccPercentile", percentileParams)]

/-! ### The table -/

def table : List (String × ExpressionOperator) :=
  (unary ++ accumulators).map (fun (name, builder) => (name, ⟨builder, .unary⟩))
    ++ nullary.map (fun (name, builder) => (name, ⟨builder, .nullary⟩))
    ++ [("$literal", ⟨"ExprLiteral", .literal⟩)]
    ++ fixed.map (fun (name, builder, count) => (name, ⟨builder, .fixed count⟩))
    ++ variadic.map (fun (name, builder) => (name, ⟨builder, .variadic⟩))
    ++ named.map (fun (name, builder, params) =>
      (name, ⟨builder, .named params (name == "$cond")⟩))

def find? (name : String) : Option ExpressionOperator := table.lookup name

def names : List String := table.map (·.1)

end ExpressionOperator

end QueryScribe
