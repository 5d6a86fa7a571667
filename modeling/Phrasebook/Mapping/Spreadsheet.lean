import Phrasebook.Mapping.Basic

/-!
# Mappings as spreadsheets

A mapping is written as a workbook of two columns in the XML format of spreadsheet programs. Cells
hold texts with the special characters of XML as entities; carriage returns are dropped.
-/

namespace Phrasebook.Spreadsheet

/-- How a character is written in a cell. -/
def escapeChar (c : Char) : Text :=
  if c = '&' then "&amp;".toList
  else if c = '<' then "&lt;".toList
  else if c = '>' then "&gt;".toList
  else if c = '"' then "&quot;".toList
  else if c = '\'' then "&apos;".toList
  else if c = '\n' then "&#10;".toList
  else if c = '\r' then []
  else [c]

/-- How a text is written in a cell. -/
def escape (t : Text) : Text :=
  t.flatMap escapeChar

/-- The workbook up to the first row. -/
def header : Text :=
  Text.unlines ([
    "<?xml version=\"1.0\" encoding=\"UTF-8\"?>",
    "<?mso-application progid=\"Excel.Sheet\"?>",
    "<Workbook xmlns=\"urn:schemas-microsoft-com:office:spreadsheet\"",
    " xmlns:ss=\"urn:schemas-microsoft-com:office:spreadsheet\">",
    " <Styles>",
    "  <Style ss:ID=\"Header\">",
    "   <Font ss:Bold=\"1\"/>",
    "   <Interior ss:Color=\"#D3D3D3\" ss:Pattern=\"Solid\"/>",
    "   <Alignment ss:Vertical=\"Center\" ss:WrapText=\"1\"/>",
    "  </Style>",
    "  <Style ss:ID=\"WrapText\">",
    "   <Alignment ss:Vertical=\"Top\" ss:WrapText=\"1\"/>",
    "  </Style>",
    " </Styles>",
    " <Worksheet ss:Name=\"Sheet1\">",
    "  <Table>",
    "   <Column ss:Width=\"300\"/>",
    "   <Column ss:Width=\"300\"/>",
    ""].map String.toList)

/-- The workbook from behind the last row. -/
def footer : Text :=
  Text.unlines ([
    "  </Table>",
    " </Worksheet>",
    "</Workbook>"].map String.toList)

/-- A cell. -/
def cell (style : String) (t : Text) : Text :=
  "    <Cell ss:StyleID=\"".toList ++ style.toList ++ "\"><Data ss:Type=\"String\">".toList ++
    escape t ++ "</Data></Cell>\n".toList

/-- A row. -/
def row (style : String) (cells : List Text) : Text :=
  "   <Row>\n".toList ++ cells.flatMap (cell style) ++ "   </Row>\n".toList

/-- The workbook of a mapping, with a header for each column. -/
def render (m : Mapping) (keyHeader valueHeader : Text) : Text :=
  header ++ row "Header" [keyHeader, valueHeader] ++
    m.entries.flatMap (fun e => row "WrapText" [e.1, e.2]) ++ footer

end Phrasebook.Spreadsheet
