import VbSharp.Text.Fold

/-!
# The language's own functions and constants
-/
namespace VbSharp

def builtInFunctions : List String :=
  ["Abs", "Array", "Asc", "AscB", "AscW", "Atn", "CBool", "CByte", "CCur", "CDate", "CDbl",
    "Chr", "ChrB", "ChrW", "CInt", "CLng", "Cos", "CreateObject", "CSng", "CStr", "Date",
    "DateAdd", "DateDiff", "DatePart", "DateSerial", "DateValue", "Day", "Escape", "Eval", "Exp",
    "Filter", "Fix", "FormatCurrency", "FormatDateTime", "FormatNumber", "FormatPercent",
    "GetLocale", "GetObject", "GetRef", "Hex", "Hour", "InputBox", "InStr", "InStrB", "InStrRev",
    "Int", "IsArray", "IsDate", "IsEmpty", "IsNull", "IsNumeric", "IsObject", "Join", "LBound",
    "LCase", "Left", "LeftB", "Len", "LenB", "LoadPicture", "Log", "LTrim", "Mid", "MidB",
    "Minute", "Month", "MonthName", "MsgBox", "Now", "Oct", "Replace", "RGB", "Right", "RightB",
    "Rnd", "Round", "RTrim", "ScriptEngine", "ScriptEngineBuildVersion",
    "ScriptEngineMajorVersion", "ScriptEngineMinorVersion", "Second", "SetLocale", "Sgn", "Sin",
    "Space", "Split", "Sqr", "StrComp", "String", "StrReverse", "Tan", "Time", "Timer",
    "TimeSerial", "TimeValue", "Trim", "TypeName", "UBound", "UCase", "Unescape", "VarType",
    "Weekday", "WeekdayName", "Year"]

def builtInConstants : List String :=
  ["vbCr", "vbCrLf", "vbFormFeed", "vbLf", "vbNewLine", "vbNullChar", "vbNullString", "vbTab",
    "vbVerticalTab", "vbObjectError", "vbBinaryCompare", "vbTextCompare", "vbDatabaseCompare",
    "vbSunday", "vbMonday", "vbTuesday", "vbWednesday", "vbThursday", "vbFriday", "vbSaturday",
    "vbUseSystemDayOfWeek", "vbFirstJan1", "vbFirstFourDays", "vbFirstFullWeek",
    "vbGeneralDate", "vbLongDate", "vbShortDate", "vbLongTime", "vbShortTime", "vbUseDefault",
    "vbTrue", "vbFalse", "vbEmpty", "vbNull", "vbInteger", "vbLong", "vbSingle", "vbDouble",
    "vbCurrency", "vbDate", "vbString", "vbObject", "vbError", "vbBoolean", "vbVariant",
    "vbDataObject", "vbDecimal", "vbByte", "vbArray", "vbOKOnly", "vbOKCancel",
    "vbAbortRetryIgnore", "vbYesNoCancel", "vbYesNo", "vbRetryCancel", "vbCritical",
    "vbQuestion", "vbExclamation", "vbInformation", "vbDefaultButton1", "vbDefaultButton2",
    "vbDefaultButton3", "vbDefaultButton4", "vbApplicationModal", "vbSystemModal", "vbOK",
    "vbCancel", "vbAbort", "vbRetry", "vbIgnore", "vbYes", "vbNo", "vbBlack", "vbRed",
    "vbGreen", "vbYellow", "vbBlue", "vbMagenta", "vbCyan", "vbWhite"]

def builtInFunction? (name : String) : Option String :=
  builtInFunctions.find? (sameWord · name)

def builtInConstant? (name : String) : Option String :=
  builtInConstants.find? (sameWord · name)

end VbSharp
